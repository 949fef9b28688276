import RailYard.Library.JsonReader
import RailYard.Library.JsonStruct

/-! JSON as a validator sees it: any text of the grammar, with numbers as they
are written, nested to a fixed depth. A decoder takes the members it knows and
passes over all others. -/
namespace RailYard.Library.JsonSyntax
open JsonReader

inductive Document where
  | null
  | bool (value : Bool)
  | number (literal : List Char)
  | text (value : String)
  | array (items : List Document)
  | object (fields : List (String × Document))

def maxNestingDepth : Nat := 10000

def readDigits : Reader (List Char) := fun text =>
  if text.takeWhile Char.isDigit = [] then none
  else some (text.takeWhile Char.isDigit, text.dropWhile Char.isDigit)

def readWhole : Reader (List Char)
  | [] => none
  | first :: rest => if first = '0' then some (['0'], rest) else readDigits (first :: rest)

def readFraction : Reader (List Char)
  | [] => some ([], [])
  | first :: rest =>
    if first = '.' then (readDigits rest).map fun found => ('.' :: found.1, found.2)
    else some ([], first :: rest)

def readSign : List Char → List Char × List Char
  | [] => ([], [])
  | first :: rest => if first = '+' ∨ first = '-' then ([first], rest) else ([], first :: rest)

def readExponent : Reader (List Char)
  | [] => some ([], [])
  | first :: rest =>
    if first = 'e' ∨ first = 'E' then
      let (sign, digits) := readSign rest
      (readDigits digits).map fun found => (first :: sign ++ found.1, found.2)
    else some ([], first :: rest)

def readUnsigned : Reader (List Char) := fun text => do
  let (whole, rest) ← readWhole text
  let (fraction, rest) ← readFraction rest
  let (exponent, rest) ← readExponent rest
  return (whole ++ fraction ++ exponent, rest)

def readNumber : Reader (List Char)
  | [] => none
  | first :: rest =>
    if first = '-' then (readUnsigned rest).map fun found => ('-' :: found.1, found.2)
    else readUnsigned (first :: rest)

def readLiteral (word : String) (value : Document) : Reader Document := fun text =>
  if word.toList.isPrefixOf text then some (value, text.drop word.length) else none

def readScalar (first : Char) (rest : List Char) : Option (Document × List Char) :=
  if first = '"' then (readString rest).map fun found => (.text found.1, found.2)
  else if first = 'n' then readLiteral "null" .null (first :: rest)
  else if first = 't' then readLiteral "true" (.bool true) (first :: rest)
  else if first = 'f' then readLiteral "false" (.bool false) (first :: rest)
  else (readNumber (first :: rest)).map fun found => (.number found.1, found.2)

def readMember (value : Reader Document) : Reader (String × Document) := fun text =>
  match skipBlanks text with
  | [] => none
  | first :: rest =>
    if first = '"' then do
      let (name, rest) ← readString rest
      match skipBlanks rest with
      | [] => none
      | next :: rest =>
        if next = ':' then (value rest).map fun found => ((name, found.1), found.2) else none
    else none

def readDocument : Nat → Reader Document
  | 0, text =>
    match skipBlanks text with
    | [] => none
    | first :: rest => readScalar first rest
  | depth + 1, text =>
    match skipBlanks text with
    | [] => none
    | first :: rest =>
      if first = '\x7b' then
        (readList (readMember (readDocument depth)) '\x7d' rest).map fun found =>
          (.object found.1, found.2)
      else if first = '[' then
        (readList (readDocument depth) ']' rest).map fun found => (.array found.1, found.2)
      else readScalar first rest

def parse (text : String) : Option Document :=
  match readDocument maxNestingDepth text.toList with
  | some (document, rest) => if skipBlanks rest = [] then some document else none
  | none => none

def valid (text : String) : Bool := (parse text).isSome

example : valid "\x7b \"a\" : [1, -2.5e+3, \x7b\x7d, null ] \x7d" = true := by decide +kernel
example : valid "\x7b\"a\":01\x7d" = false ∧ valid "[1,]" = false := by decide +kernel

section Writing

theorem readDigits_append (hne : digits ≠ []) (hdigits : ∀ digit ∈ digits, digit.isDigit = true)
    (h : endsInteger rest = true) :
    readDigits (digits ++ rest) = some (digits, rest) := by
  unfold readDigits
  rw [List.takeWhile_append_of_pos hdigits, List.dropWhile_append_of_pos hdigits,
    (digits_of_ends h).1, (digits_of_ends h).2, List.append_nil, if_neg hne]

theorem readUnsigned_toDigits (value : Nat) (h : endsInteger rest = true) :
    readUnsigned (Nat.toDigits 10 value ++ rest) = some (Nat.toDigits 10 value, rest) := by
  have hdigits : ∀ digit ∈ Nat.toDigits 10 value, digit.isDigit = true :=
    fun _ hdigit => Nat.isDigit_of_mem_toDigits (by decide) (by decide) hdigit
  have hwhole : readWhole (Nat.toDigits 10 value ++ rest) = some (Nat.toDigits 10 value, rest) := by
    cases hvalue : Nat.toDigits 10 value with
    | nil => exact (Nat.toDigits_ne_nil hvalue).elim
    | cons first digits =>
      rw [hvalue] at hdigits
      rw [List.cons_append, readWhole]
      split
      · rename_i hzero
        rw [hzero] at hvalue ⊢
        rw [(eq_zero_of_head_toDigits hvalue).2]
        rfl
      · exact readDigits_append (List.cons_ne_nil _ _) hdigits h
  -- Neither a fraction nor an exponent comes after it.
  have hrest : readFraction rest = some ([], rest) ∧ readExponent rest = some ([], rest) := by
    cases rest with
    | nil => exact ⟨rfl, rfl⟩
    | cons next rest =>
      simp only [endsInteger, List.head?_cons, Bool.and_eq_true, decide_eq_true_eq] at h
      obtain ⟨⟨⟨_, hpoint⟩, hlower⟩, hupper⟩ := h
      simp [readFraction, readExponent, hpoint, hlower, hupper]
  unfold readUnsigned
  simp [hwhole, hrest.1, hrest.2]

theorem readNumber_toString (value : Int) (h : endsInteger rest = true) :
    readNumber ((toString value).toList ++ rest) = some ((toString value).toList, rest) := by
  rw [Int.toString_eq_repr, Int.repr_eq_if]
  split
  · obtain ⟨first, digits, hvalue, hdigit⟩ := head_toDigits value.toNat
    have hfirst : first ≠ '-' := by
      rintro rfl
      cases hdigit
    have hread := readUnsigned_toDigits value.toNat h
    rw [hvalue, List.cons_append] at hread
    rw [Nat.toList_repr, hvalue, List.cons_append, readNumber, if_neg hfirst, hread]
  · have hminus : "-".toList = ['-'] := rfl
    rw [String.toList_append, Nat.toList_repr, hminus, List.append_assoc, List.singleton_append,
      readNumber, if_pos rfl, readUnsigned_toDigits _ h]
    rfl

inductive Scalar : Document → Prop
  | number (value : Int) : Scalar (.number (toString value).toList)
  | text (value : String) : Scalar (.text value)

def writeScalar : Document → List Char
  | .number literal => literal
  | .text value => (Json.quote value).toList
  | _ => []

def writeMember (member : String × Document) : List Char :=
  (Json.quote member.1).toList ++ ':' :: writeScalar member.2

theorem Scalar.read (h : Scalar document) (hends : endsInteger rest = true) (depth : Nat) :
    readDocument depth (writeScalar document ++ rest) = some (document, rest) := by
  have hscalar : ∃ first tail, writeScalar document ++ rest = first :: tail ∧
      isBlank first = false ∧ first ≠ '\x7b' ∧ first ≠ '[' ∧
      readScalar first tail = some (document, rest) := by
    cases h with
    | number value =>
      obtain ⟨first, digits, hvalue, hfirst⟩ := head_toString value
      have hread := readNumber_toString value hends
      have hsignals := not_mem_signals hfirst
      have hblank := isBlank_of_not_mem_signals hsignals
      simp only [signals, List.mem_cons, List.not_mem_nil, not_or] at hsignals
      obtain ⟨_, _, _, _, _, hobject, harray, htext, hnull, htrue, hfalse, _⟩ := hsignals
      rw [writeScalar]
      rw [hvalue, List.cons_append] at hread ⊢
      refine ⟨first, digits ++ rest, rfl, hblank, hobject, harray, ?_⟩
      rw [readScalar, if_neg htext, if_neg hnull, if_neg htrue, if_neg hfalse, hread]
      rfl
    | text value =>
      rw [writeScalar, toList_quote, List.cons_append, List.cons_append, List.append_assoc,
        List.singleton_append]
      refine ⟨'"', _, rfl, rfl, by decide, by decide, ?_⟩
      rw [readScalar, if_pos rfl, readString_quote]
      rfl
  obtain ⟨first, tail, heq, hblank, hobject, harray, hread⟩ := hscalar
  rw [heq]
  cases depth with
  | zero =>
    rw [readDocument, skipBlanks_cons hblank]
    exact hread
  | succ depth =>
    rw [readDocument, skipBlanks_cons hblank]
    dsimp only
    rw [if_neg hobject, if_neg harray, hread]

theorem readMember_writeMember {depth : Nat} {member : String × Document} (h : Scalar member.2)
    (hends : endsInteger rest = true) :
    readMember (readDocument depth) (writeMember member ++ rest) = some (member, rest) := by
  unfold readMember writeMember
  rw [toList_quote, List.cons_append, List.cons_append, List.cons_append, List.append_assoc,
    List.append_assoc, List.singleton_append, skipBlanks_cons (by decide)]
  dsimp only
  rw [if_pos rfl, List.cons_append, readString_quote, Option.bind_eq_bind, Option.bind_some]
  dsimp only
  rw [skipBlanks_cons (by decide)]
  dsimp only
  rw [if_pos rfl, h.read hends]
  rfl

theorem valid_object {members : List (String × Document)} {source : String}
    (h : ∀ member ∈ members, Scalar member.2)
    (hsource : source.toList = '\x7b' :: [','].intercalate (members.map writeMember) ++ ['\x7d']) :
    valid source = true := by
  have hread : readDocument (9999 + 1) source.toList = some (.object members, []) := by
    rw [hsource, List.cons_append, readDocument, skipBlanks_cons (by decide)]
    dsimp only
    rw [if_pos rfl, readList_intercalate (by decide) (by decide)]
    · rfl
    · intro member hmember next rest hnext
      exact readMember_writeMember (h member hmember)
        (endsInteger_of_next rest (hnext.imp_right .inr))
    · intro member _
      rw [writeMember, toList_quote]
      exact ⟨'"', _, rfl, by decide, by decide⟩
  unfold valid parse
  rw [show maxNestingDepth = 9999 + 1 from rfl, hread]
  rfl

end Writing

section Decoding

variable {α ρ : Type}

/-- Decoding changes a value that is already there; `null` leaves it. -/
abbrev Decoder (α : Type) := Document → α → Option α

def text : Decoder String
  | .null, value => some value
  | .text found, _ => some found
  | _, _ => none

def flag : Decoder Bool
  | .null, value => some value
  | .bool found, _ => some found
  | _, _ => none

def integer (fits : Int → Bool) : Decoder Int
  | .null, value => some value
  | .number literal, _ =>
    match readInteger literal with
    | some (found, []) => if fits found then some found else none
    | _ => none
  | _, _ => none

def slice (zero : α) (element : Decoder α) : Decoder (List α)
  | .null, _ => some []
  | .array items, _ => items.mapM fun item => element item zero
  | _, _ => none

structure Member (ρ : Type) where
  name : String
  decode : Decoder ρ

def member (name : String) (decoder : Decoder α) (get : ρ → α) (set : ρ → α → ρ) : Member ρ :=
  ⟨name, fun document value => (decoder document (get value)).map (set value)⟩

def assign (members : List (Member ρ)) (value : ρ) (entry : String × Document) : Option ρ :=
  match members.find? fun member =>
      JsonStruct.foldName member.name = JsonStruct.foldName entry.1 with
  | some found => found.decode entry.2 value
  | none => some value

def struct (members : List (Member ρ)) : Decoder ρ
  | .null, value => some value
  | .object entries, value => entries.foldlM (assign members) value
  | _, _ => none

def unmarshal (members : List (Member ρ)) (zero : ρ) (source : String) : Option ρ := do
  let document ← parse source
  struct members document zero

end Decoding

end RailYard.Library.JsonSyntax
