import RailYard.Library.Json

/-! Reading JSON back. A reader takes a value from the front of a text and says
what is left. Whatever `render` writes is read back as it was, so the canonical
text of a document determines the document. -/
namespace RailYard.Library.JsonReader

abbrev Reader (α : Type) := List Char → Option (α × List Char)

def isBlank (character : Char) : Bool :=
  character = ' ' || character = '\t' || character = '\n' || character = '\r'

def skipBlanks (text : List Char) : List Char := text.dropWhile isBlank

def hexValue (character : Char) : Option Nat :=
  if '0' ≤ character ∧ character ≤ '9' then some (character.toNat - 48)
  else if 'a' ≤ character ∧ character ≤ 'f' then some (character.toNat - 87)
  else if 'A' ≤ character ∧ character ≤ 'F' then some (character.toNat - 55)
  else none

def readHex4 : Reader Nat
  | a :: b :: c :: d :: rest => do
    return (((← hexValue a) * 4096 + (← hexValue b) * 256 + (← hexValue c) * 16 + (← hexValue d)),
      rest)
  | _ => none

def replacement : Char := Char.ofNat 0xFFFD

def surrogatePair (high low : Nat) : Option Char :=
  if 0xD800 ≤ high ∧ high < 0xDC00 ∧ 0xDC00 ≤ low ∧ low < 0xE000 then
    some (Char.ofNat (0x10000 + (high - 0xD800) * 1024 + (low - 0xDC00)))
  else none

def readLowSurrogate (high : Nat) : Reader Char
  | slash :: letter :: rest =>
    if slash = '\\' ∧ letter = 'u' then do
      let (low, rest) ← readHex4 rest
      return (← surrogatePair high low, rest)
    else none
  | _ => none

/-- The character that `\u` and four hexadecimal digits stand for. -/
def readUnicode : Reader Char := fun text => do
  let (code, rest) ← readHex4 text
  if 0xD800 ≤ code ∧ code < 0xE000 then
    return (readLowSurrogate code rest).getD (replacement, rest)
  else return (Char.ofNat code, rest)

def simpleEscape (letter : Char) : Option Char :=
  if letter = '"' ∨ letter = '\\' ∨ letter = '/' then some letter
  else if letter = 'b' then some (Char.ofNat 8)
  else if letter = 'f' then some (Char.ofNat 12)
  else if letter = 'n' then some '\n'
  else if letter = 'r' then some '\r'
  else if letter = 't' then some '\t'
  else none

/-- One character of a string, or `none` for the quote that ends it. -/
def readCharacter : Reader (Option Char)
  | [] => none
  | first :: rest =>
    if first = '"' then some (none, rest)
    else if first = '\\' then
      match rest with
      | [] => none
      | letter :: rest =>
        if letter = 'u' then (readUnicode rest).map fun found => (some found.1, found.2)
        else (simpleEscape letter).map fun character => (some character, rest)
    else if first.toNat < 32 then none
    else some (some first, rest)

def readCharacters : Nat → Reader (List Char)
  | 0, _ => none
  | fuel + 1, text =>
    match readCharacter text with
    | none => none
    | some (none, rest) => some ([], rest)
    | some (some character, rest) =>
      (readCharacters fuel rest).map fun found => (character :: found.1, found.2)

def readString : Reader String := fun text =>
  (readCharacters text.length text).map fun found => (String.ofList found.1, found.2)

def readNatural : Reader Nat
  | [] => none
  | first :: rest =>
    if first = '0' then some (0, rest)
    else if first.isDigit then
      some (Nat.ofDigitChars 10 (first :: rest.takeWhile Char.isDigit) 0,
        rest.dropWhile Char.isDigit)
    else none

def endsInteger (text : List Char) : Bool :=
  match text.head? with
  | some next => !next.isDigit && next ≠ '.' && next ≠ 'e' && next ≠ 'E'
  | none => true

def readSigned : Reader Int
  | [] => none
  | first :: rest =>
    if first = '-' then (readNatural rest).map fun found => (-(found.1 : Int), found.2)
    else (readNatural (first :: rest)).map fun found => ((found.1 : Int), found.2)

def readInteger : Reader Int := fun text => do
  let (value, rest) ← readSigned text
  if endsInteger rest then return (value, rest) else none

def readWord (word : String) (value : Json) : Reader Json := fun text =>
  if word.toList.isPrefixOf text then some (value, text.drop word.length) else none

def readElements {α : Type} (element : Reader α) (close : Char) : Nat → Reader (List α)
  | 0, _ => none
  | fuel + 1, text => do
    let (item, rest) ← element text
    match skipBlanks rest with
    | [] => none
    | next :: rest =>
      if next = close then return ([item], rest)
      else if next = ',' then do
        let (items, rest) ← readElements element close fuel rest
        return (item :: items, rest)
      else none

def readList {α : Type} (element : Reader α) (close : Char) : Reader (List α) := fun text =>
  match skipBlanks text with
  | [] => none
  | next :: rest =>
    if next = close then some ([], rest)
    else readElements element close text.length (next :: rest)

def readField (value : Reader Json) : Reader (String × Json) := fun text =>
  match skipBlanks text with
  | [] => none
  | first :: rest =>
    if first = '"' then do
      let (name, rest) ← readString rest
      match skipBlanks rest with
      | [] => none
      | next :: rest =>
        if next = ':' then (value rest).map fun found => ((name, found.1), found.2) else none
    else none

def readValue : Nat → Reader Json
  | 0, _ => none
  | fuel + 1, text =>
    match skipBlanks text with
    | [] => none
    | first :: rest =>
      if first = '\x7b' then
        (readList (readField (readValue fuel)) '\x7d' rest).map fun found =>
          (.object found.1, found.2)
      else if first = '[' then
        (readList (readValue fuel) ']' rest).map fun found => (.array found.1, found.2)
      else if first = '"' then
        (readString rest).map fun found => (.text found.1, found.2)
      else if first = 'n' then readWord "null" .null (first :: rest)
      else if first = 't' then readWord "true" (.bool true) (first :: rest)
      else if first = 'f' then readWord "false" (.bool false) (first :: rest)
      else (readInteger (first :: rest)).map fun found => (.number found.1, found.2)

def read : Reader Json := fun text => readValue text.length text

example : (read (String.toList "\x7b \"a\\u00e9\" : [1, -20,null]\x7d tail")).map
    (fun found => found.1.render) = some "\x7b\"aé\":[1,-20,null]\x7d" := by
  decide +kernel

theorem hexValue_hexDigit (h : value < 16) : hexValue (Json.hexDigit value) = some value := by
  have hall : ∀ value : Fin 16, hexValue (Json.hexDigit value) = some value.val := by decide
  exact hall ⟨value, h⟩

theorem readHex4_digits (h : code < 65536) (rest : List Char) :
    readHex4 (Json.hexDigit (code / 4096 % 16) :: Json.hexDigit (code / 256 % 16) ::
      Json.hexDigit (code / 16 % 16) :: Json.hexDigit (code % 16) :: rest) = some (code, rest) := by
  have hmod : ∀ value, value % 16 < 16 := fun value => Nat.mod_lt value (by decide)
  simp only [readHex4, hexValue_hexDigit (hmod _), Option.pure_def, Option.bind_eq_bind,
    Option.bind_some, Option.some.injEq, Prod.mk.injEq, and_true]
  omega

theorem readCharacter_unicodeEscape (h : character.toNat < 0xD800) (rest : List Char) :
    readCharacter (Json.unicodeEscape character.toNat ++ rest) = some (some character, rest) := by
  have hread : readUnicode (Json.hexDigit (character.toNat / 4096 % 16) ::
      Json.hexDigit (character.toNat / 256 % 16) :: Json.hexDigit (character.toNat / 16 % 16) ::
      Json.hexDigit (character.toNat % 16) :: rest) = some (character, rest) := by
    unfold readUnicode
    rw [readHex4_digits (by omega), Option.bind_eq_bind, Option.bind_some]
    dsimp only
    rw [if_neg (by omega), Char.ofNat_toNat]
    rfl
  simp [Json.unicodeEscape, readCharacter, hread]

theorem readCharacter_escapeChar (character : Char) (rest : List Char) :
    readCharacter (Json.escapeChar character ++ rest) = some (some character, rest) := by
  have hcode : ∀ code, character.toNat = code → Char.ofNat code = character := by
    intro code hcode
    rw [← hcode, Char.ofNat_toNat]
  unfold Json.escapeChar
  by_cases hquote : character = '"'
  · rw [if_pos hquote, hquote]
    rfl
  rw [if_neg hquote]
  by_cases hslash : character = '\\'
  · rw [if_pos hslash, hslash]
    rfl
  rw [if_neg hslash]
  split
  · subst_vars
    rfl
  split
  · subst_vars
    rfl
  split
  · subst_vars
    rfl
  split
  · rw [← hcode 8 ‹_›]
    rfl
  split
  · rw [← hcode 12 ‹_›]
    rfl
  split
  · rename_i hescaped
    apply readCharacter_unicodeEscape
    rcases hescaped with h | rfl | rfl | rfl | h | h
    · omega
    · decide
    · decide
    · decide
    · omega
    · omega
  · rename_i hplain
    have hvisible : ¬character.toNat < 32 := fun h => hplain (.inl h)
    simp [readCharacter, hquote, hslash, hvisible]

theorem readCharacters_escaped (characters rest : List Char) (h : characters.length < fuel) :
    readCharacters fuel (characters.flatMap Json.escapeChar ++ '"' :: rest) =
      some (characters, rest) := by
  induction characters generalizing fuel with
  | nil =>
    obtain ⟨fuel, rfl⟩ := Nat.exists_eq_succ_of_ne_zero (Nat.ne_of_gt h)
    rfl
  | cons character characters ih =>
    obtain ⟨fuel, rfl⟩ := Nat.exists_eq_succ_of_ne_zero (Nat.ne_of_gt (Nat.zero_lt_of_lt h))
    rw [List.length_cons] at h
    unfold readCharacters
    rw [List.flatMap_cons, List.append_assoc, readCharacter_escapeChar]
    dsimp only
    rw [ih (by omega)]
    rfl

theorem length_le_flatMap_escapeChar (characters : List Char) :
    characters.length ≤ (characters.flatMap Json.escapeChar).length := by
  induction characters with
  | nil => exact Nat.le_refl 0
  | cons character characters ih =>
    have hone : 1 ≤ (Json.escapeChar character).length := by
      unfold Json.escapeChar Json.unicodeEscape
      split_ifs <;> simp
    rw [List.flatMap_cons, List.length_append, List.length_cons]
    omega

theorem toList_quote (value : String) :
    (Json.quote value).toList = '"' :: value.toList.flatMap Json.escapeChar ++ ['"'] :=
  String.toList_ofList

theorem readString_quote (value : String) (rest : List Char) :
    readString (value.toList.flatMap Json.escapeChar ++ '"' :: rest) = some (value, rest) := by
  have hlength := length_le_flatMap_escapeChar value.toList
  unfold readString
  rw [readCharacters_escaped, Option.map_some, String.ofList_toList]
  rw [List.length_append, List.length_cons]
  omega

theorem eq_zero_of_head_toDigits (h : Nat.toDigits 10 value = '0' :: digits) :
    value = 0 ∧ digits = [] := by
  induction value using Nat.strongRecOn generalizing digits with
  | ind value ih =>
    by_cases hsmall : value < 10
    · rw [Nat.toDigits_of_lt_base hsmall, List.cons.injEq] at h
      refine ⟨?_, h.2.symm⟩
      have hall : ∀ value : Fin 10, Nat.digitChar value = '0' → value.val = 0 := by decide
      exact hall ⟨value, hsmall⟩ h.1
    · rw [Nat.toDigits_of_base_le (by decide) (by omega)] at h
      cases hrest : Nat.toDigits 10 (value / 10) with
      | nil => exact (Nat.toDigits_ne_nil hrest).elim
      | cons first tail =>
        rw [hrest, List.cons_append, List.cons.injEq] at h
        rw [h.1] at hrest
        have hzero := (ih (value / 10) (by omega) hrest).1
        omega

theorem digits_of_ends (h : endsInteger rest = true) :
    rest.takeWhile Char.isDigit = [] ∧ rest.dropWhile Char.isDigit = rest := by
  cases rest with
  | nil => exact ⟨rfl, rfl⟩
  | cons next rest =>
    have hnext : next.isDigit = false := by
      simp only [endsInteger, List.head?_cons, Bool.and_eq_true, Bool.not_eq_true'] at h
      exact h.1.1.1
    simp [hnext]

theorem readNatural_toDigits (value : Nat) (h : endsInteger rest = true) :
    readNatural (Nat.toDigits 10 value ++ rest) = some (value, rest) := by
  have hdigits : ∀ digit ∈ Nat.toDigits 10 value, digit.isDigit = true :=
    fun _ hdigit => Nat.isDigit_of_mem_toDigits (by decide) (by decide) hdigit
  cases hvalue : Nat.toDigits 10 value with
  | nil => exact (Nat.toDigits_ne_nil hvalue).elim
  | cons first digits =>
    rw [hvalue] at hdigits
    rw [List.cons_append, readNatural]
    split
    · rename_i hzero
      rw [hzero] at hvalue
      obtain ⟨rfl, rfl⟩ := eq_zero_of_head_toDigits hvalue
      rfl
    · have htail : ∀ digit ∈ digits, digit.isDigit = true :=
        fun digit hdigit => hdigits digit (List.mem_cons_of_mem _ hdigit)
      rw [if_pos (hdigits first (List.mem_cons_self ..)), List.takeWhile_append_of_pos htail,
        List.dropWhile_append_of_pos htail, (digits_of_ends h).1, (digits_of_ends h).2, List.append_nil, ← hvalue,
        Nat.ofDigitChars_ten_toDigits]

theorem head_toDigits (value : Nat) :
    ∃ first digits, Nat.toDigits 10 value = first :: digits ∧ first.isDigit = true := by
  cases hvalue : Nat.toDigits 10 value with
  | nil => exact (Nat.toDigits_ne_nil hvalue).elim
  | cons first digits =>
    have hmem : first ∈ Nat.toDigits 10 value := by
      rw [hvalue]
      exact List.mem_cons_self ..
    exact ⟨first, digits, rfl, Nat.isDigit_of_mem_toDigits (by decide) (by decide) hmem⟩

theorem head_toString (value : Int) : ∃ first digits, (toString value).toList = first :: digits ∧
      (first = '-' ∨ first.isDigit = true) := by
  rw [Int.toString_eq_repr, Int.repr_eq_if]
  split
  · obtain ⟨first, digits, hvalue, hdigit⟩ := head_toDigits value.toNat
    exact ⟨first, digits, by rw [Nat.toList_repr, hvalue], .inr hdigit⟩
  · exact ⟨'-', _, String.toList_append, .inl rfl⟩

theorem readSigned_toString (value : Int) (h : endsInteger rest = true) :
    readSigned ((toString value).toList ++ rest) = some (value, rest) := by
  rw [Int.toString_eq_repr, Int.repr_eq_if]
  split
  · rename_i hsign
    obtain ⟨first, digits, hvalue, hdigit⟩ := head_toDigits value.toNat
    have hfirst : first ≠ '-' := by
      rintro rfl
      cases hdigit
    have hread := readNatural_toDigits value.toNat h
    rw [hvalue, List.cons_append] at hread
    rw [Nat.toList_repr, hvalue, List.cons_append, readSigned, if_neg hfirst, hread,
      Option.map_some, Int.toNat_of_nonneg hsign]
  · rename_i hsign
    have hminus : "-".toList = ['-'] := rfl
    rw [String.toList_append, Nat.toList_repr, hminus, List.append_assoc, List.singleton_append,
      readSigned, if_pos rfl, readNatural_toDigits _ h, Option.map_some,
      Int.toNat_of_nonneg (by omega), Int.neg_neg]

theorem readInteger_toString (value : Int) (h : endsInteger rest = true) :
    readInteger ((toString value).toList ++ rest) = some (value, rest) := by
  unfold readInteger
  rw [readSigned_toString value h, Option.bind_eq_bind, Option.bind_some]
  exact if_pos h

theorem skipBlanks_cons (h : isBlank first = false) (rest : List Char) :
    skipBlanks (first :: rest) = first :: rest := by
  unfold skipBlanks
  rw [List.dropWhile_cons, h]
  rfl

section Lists

variable {α : Type}

theorem readElements_intercalate (hclose : isBlank close = false) (hcomma : close ≠ ',')
    (hread : ∀ item ∈ items, ∀ next rest, next = ',' ∨ next = close →
      element (write item ++ next :: rest) = some (item, next :: rest)) (hsome : items ≠ [])
    (rest : List Char) (hfuel : items.length ≤ fuel) :
    readElements element close fuel ([','].intercalate (items.map write) ++ close :: rest) =
      some (items, rest) := by
  induction items generalizing fuel with
  | nil => exact (hsome rfl).elim
  | cons item items ih =>
    obtain ⟨fuel, rfl⟩ := Nat.exists_eq_succ_of_ne_zero
      (Nat.ne_of_gt (Nat.lt_of_lt_of_le (Nat.zero_lt_succ _) hfuel))
    have hitem := hread item (List.mem_cons_self ..)
    cases items with
    | nil =>
      rw [List.map_cons, List.map_nil, List.intercalate_singleton, readElements,
        hitem close rest (.inr rfl), Option.bind_eq_bind, Option.bind_some]
      dsimp only
      rw [skipBlanks_cons hclose]
      exact if_pos rfl
    | cons second items =>
      rw [List.length_cons] at hfuel
      have hrest := ih (fun other hother => hread other (List.mem_cons_of_mem _ hother))
        (List.cons_ne_nil _ _) (Nat.le_of_succ_le_succ hfuel)
      rw [List.map_cons, List.map_cons, List.intercalate_cons_cons, List.append_assoc,
        List.append_assoc, ← List.map_cons, List.singleton_append, readElements,
        hitem ',' _ (.inl rfl), Option.bind_eq_bind, Option.bind_some]
      dsimp only
      rw [skipBlanks_cons (by decide)]
      dsimp only
      rw [if_neg (Ne.symm hcomma), if_pos rfl, hrest]
      rfl

theorem length_le_intercalate (texts : List (List Char)) :
    texts.length ≤ ([','].intercalate texts).length + 1 := by
  induction texts with
  | nil => exact Nat.zero_le _
  | cons text texts ih =>
    cases texts with
    | nil => simp
    | cons second texts =>
      rw [List.intercalate_cons_cons, List.length_append, List.length_append, List.length_cons]
      simp only [List.length_singleton]
      omega

theorem readList_intercalate (hclose : isBlank close = false) (hcomma : close ≠ ',')
    (hread : ∀ item ∈ items, ∀ next rest, next = ',' ∨ next = close →
      element (write item ++ next :: rest) = some (item, next :: rest))
    (hhead : ∀ item ∈ items, ∃ first tail, write item = first :: tail ∧ first ≠ close ∧
      isBlank first = false) (rest : List Char) :
    readList element close ([','].intercalate (items.map write) ++ close :: rest) =
      some (items, rest) := by
  cases items with
  | nil =>
    unfold readList
    rw [List.map_nil, List.intercalate_nil, List.nil_append, skipBlanks_cons hclose]
    exact if_pos rfl
  | cons item items =>
    generalize htext : [','].intercalate ((item :: items).map write) ++ close :: rest = text
    have hfuel : (item :: items).length ≤ text.length := by
      have hlength := length_le_intercalate ((item :: items).map write)
      rw [← htext, List.length_append, List.length_cons (a := close)]
      rw [List.length_map] at hlength
      omega
    have hall := readElements_intercalate hclose hcomma hread (List.cons_ne_nil _ _) rest hfuel
    rw [htext] at hall
    obtain ⟨first, tail, hfirst, hne, hblank⟩ := hhead item (List.mem_cons_self ..)
    obtain ⟨more, hmore⟩ : ∃ more, text = first :: more := by
      rw [← htext, List.map_cons, hfirst]
      cases items.map write with
      | nil => exact ⟨_, rfl⟩
      | cons => exact ⟨_, rfl⟩
    unfold readList
    rw [hmore, skipBlanks_cons hblank]
    dsimp only
    rw [if_neg hne, ← hmore]
    exact hall

end Lists

theorem renderItems_eq (items : List Json) : Json.renderItems items = items.map Json.render := by
  induction items with
  | nil => rfl
  | cons item items ih => rw [Json.renderItems, ih, List.map_cons]

def writeField (field : String × Json) : List Char :=
  (Json.quote field.1).toList ++ ':' :: field.2.render.toList

theorem toList_renderFields (fields : List (String × Json)) :
    (Json.renderFields fields).map String.toList = fields.map writeField := by
  induction fields with
  | nil => rfl
  | cons field fields ih =>
    obtain ⟨name, value⟩ := field
    have hcolon : ":".toList = [':'] := rfl
    rw [Json.renderFields, List.map_cons, ih, List.map_cons, writeField, String.toList_append,
      String.toList_append, hcolon, List.append_assoc, List.singleton_append]

theorem toList_render_array (items : List Json) : (Json.array items).render.toList =
      '[' :: ([','].intercalate (items.map fun item => item.render.toList) ++ [']']) := by
  rw [Json.render, String.toList_append, String.toList_append, String.toList_intercalate,
    renderItems_eq, List.map_map]
  rfl

theorem toList_render_object (fields : List (String × Json)) : (Json.object fields).render.toList =
      '\x7b' :: ([','].intercalate (fields.map writeField) ++ ['\x7d']) := by
  rw [Json.render, String.toList_append, String.toList_append, String.toList_intercalate,
    toList_renderFields]
  rfl

theorem length_le_of_mem_intercalate {text : List Char} (h : text ∈ texts) :
    text.length ≤ ([','].intercalate texts).length := by
  induction texts with
  | nil => cases h
  | cons first texts ih =>
    cases texts with
    | nil =>
      have htext := List.mem_singleton.mp h
      simp [htext]
    | cons second texts =>
      rw [List.intercalate_cons_cons, List.length_append, List.length_append]
      rcases List.mem_cons.mp h with rfl | hmem
      · omega
      · have hle := ih hmem
        omega

def signals : List Char := [' ', '\t', '\n', '\r', ']', '\x7b', '[', '"', 'n', 't', 'f']

theorem not_mem_signals (h : first = '-' ∨ first.isDigit = true) : first ∉ signals := by
  intro hmem
  rcases h with rfl | hdigit
  · revert hmem
    decide
  · have hall : signals.all (fun signal => !signal.isDigit) = true := by decide
    have hnone := List.all_eq_true.mp hall first hmem
    simp [hdigit] at hnone

theorem isBlank_of_not_mem_signals (h : first ∉ signals) : isBlank first = false := by
  refine Bool.eq_false_iff.mpr fun hblank => h ?_
  simp only [isBlank, Bool.or_eq_true, decide_eq_true_eq] at hblank
  rcases hblank with ((rfl | rfl) | rfl) | rfl <;> decide

theorem head_render (json : Json) :
    ∃ first tail, json.render.toList = first :: tail ∧ isBlank first = false ∧ first ≠ ']' := by
  cases json with
  | null => exact ⟨'n', _, rfl, rfl, by decide⟩
  | bool value => cases value <;> exact ⟨_, _, rfl, rfl, by decide⟩
  | number value =>
    obtain ⟨first, digits, hvalue, hfirst⟩ := head_toString value
    have hsignals := not_mem_signals hfirst
    refine ⟨first, digits, hvalue, isBlank_of_not_mem_signals hsignals, ?_⟩
    rintro rfl
    exact hsignals (by decide)
  | text value => exact ⟨'"', _, toList_quote value, rfl, by decide⟩
  | array items => exact ⟨'[', _, toList_render_array items, rfl, by decide⟩
  | object fields => exact ⟨'\x7b', _, toList_render_object fields, rfl, by decide⟩

theorem readField_writeField (h : value (field.2.render.toList ++ rest) = some (field.2, rest)) :
    readField value (writeField field ++ rest) = some (field, rest) := by
  unfold readField writeField
  rw [toList_quote, List.cons_append, List.cons_append, List.cons_append, List.append_assoc,
    List.append_assoc, List.singleton_append, skipBlanks_cons (by decide)]
  dsimp only
  rw [if_pos rfl, List.cons_append, readString_quote, Option.bind_eq_bind, Option.bind_some]
  dsimp only
  rw [skipBlanks_cons (by decide)]
  dsimp only
  rw [if_pos rfl, h]
  rfl

theorem readValue_number (fuel : Nat) (value : Int) (h : endsInteger rest = true) :
    readValue (fuel + 1) ((toString value).toList ++ rest) = some (.number value, rest) := by
  obtain ⟨first, digits, hvalue, hfirst⟩ := head_toString value
  have hread := readInteger_toString value h
  have hsignals := not_mem_signals hfirst
  have hblank := isBlank_of_not_mem_signals hsignals
  simp only [signals, List.mem_cons, List.not_mem_nil, not_or] at hsignals
  obtain ⟨_, _, _, _, _, hobject, harray, htext, hnull, htrue, hfalse, _⟩ := hsignals
  rw [hvalue, List.cons_append] at hread ⊢
  rw [readValue, skipBlanks_cons hblank]
  dsimp only
  rw [if_neg hobject, if_neg harray, if_neg htext, if_neg hnull, if_neg htrue, if_neg hfalse, hread]
  rfl

theorem endsInteger_of_next {next : Char} (rest : List Char)
    (h : next = ',' ∨ next = ']' ∨ next = '\x7d') : endsInteger (next :: rest) = true := by
  rcases h with rfl | rfl | rfl <;> rfl

theorem readValue_render (fuel : Nat) (json : Json) (rest : List Char)
    (hfuel : json.render.toList.length ≤ fuel) (hends : endsInteger rest = true) :
    readValue fuel (json.render.toList ++ rest) = some (json, rest) := by
  induction fuel generalizing json rest with
  | zero =>
    obtain ⟨first, tail, hrender, _⟩ := head_render json
    rw [hrender] at hfuel
    cases hfuel
  | succ fuel ih =>
    cases json with
    | null => rfl
    | bool value => cases value <;> rfl
    | number value => exact readValue_number fuel value hends
    | text value =>
      change readValue (fuel + 1) ((Json.quote value).toList ++ rest) = _
      rw [toList_quote, List.cons_append, List.cons_append, List.append_assoc,
        List.singleton_append, readValue, skipBlanks_cons (by decide)]
      change (readString _).map _ = _
      rw [readString_quote]
      rfl
    | array items =>
      rw [toList_render_array] at hfuel ⊢
      rw [List.length_cons, List.length_append] at hfuel
      rw [List.cons_append, List.append_assoc, List.singleton_append, readValue,
        skipBlanks_cons (by decide)]
      change (readList _ _ _).map _ = _
      rw [readList_intercalate (by decide) (by decide)]
      · rfl
      · intro item hitem next rest hnext
        have hlength := length_le_of_mem_intercalate
          (List.mem_map_of_mem (f := fun item => item.render.toList) hitem)
        exact ih item _ (by omega) (endsInteger_of_next rest (hnext.imp_right .inl))
      · intro item _
        obtain ⟨first, tail, hfirst, hblank, hclose⟩ := head_render item
        exact ⟨first, tail, hfirst, hclose, hblank⟩
    | object fields =>
      rw [toList_render_object] at hfuel ⊢
      rw [List.length_cons, List.length_append] at hfuel
      rw [List.cons_append, List.append_assoc, List.singleton_append, readValue,
        skipBlanks_cons (by decide)]
      change (readList _ _ _).map _ = _
      rw [readList_intercalate (by decide) (by decide)]
      · rfl
      · intro field hfield next rest hnext
        have hlength := length_le_of_mem_intercalate (List.mem_map_of_mem (f := writeField) hfield)
        rw [writeField, List.length_append, List.length_cons] at hlength
        exact readField_writeField
          (ih field.2 _ (by omega) (endsInteger_of_next rest (hnext.imp_right .inr)))
      · intro field _
        rw [writeField, toList_quote]
        exact ⟨'"', _, rfl, by decide, by decide⟩

theorem read_render (json : Json) (h : endsInteger rest = true) :
    read (json.render.toList ++ rest) = some (json, rest) := by
  refine readValue_render _ json rest ?_ h
  rw [List.length_append]
  omega

theorem visible_unicodeEscape {written : Char} (h : written ∈ Json.unicodeEscape code) :
    32 ≤ written.toNat := by
  have hdigit : ∀ value, 32 ≤ (Json.hexDigit (value % 16)).toNat := by
    have hall : ∀ value : Fin 16, 32 ≤ (Json.hexDigit value).toNat := by decide
    exact fun value => hall ⟨value % 16, Nat.mod_lt value (by decide)⟩
  simp only [Json.unicodeEscape, List.mem_cons, List.not_mem_nil, or_false] at h
  rcases h with rfl | rfl | rfl | rfl | rfl | rfl
  · decide
  · decide
  all_goals exact hdigit _

theorem visible_escapeChar {written : Char} (h : written ∈ Json.escapeChar character) :
    32 ≤ written.toNat := by
  unfold Json.escapeChar at h
  split_ifs at h with _ _ _ _ _ _ _ hescaped
  case neg =>
    rw [List.mem_singleton.mp h]
    exact Nat.not_lt.mp fun hless => hescaped (.inl hless)
  all_goals first
    | exact visible_unicodeEscape h
    | simp only [List.mem_cons, List.not_mem_nil, or_false] at h
      rcases h with rfl | rfl <;> decide

theorem visible_quote {written : Char} (h : written ∈ (Json.quote value).toList) :
    32 ≤ written.toNat := by
  rw [toList_quote, List.cons_append, List.mem_cons, List.mem_append, List.mem_singleton,
    List.mem_flatMap] at h
  rcases h with rfl | ⟨character, _, hwritten⟩ | rfl
  · decide
  · exact visible_escapeChar hwritten
  · decide

theorem visible_toString {value : Int} {written : Char} (h : written ∈ (toString value).toList) :
    32 ≤ written.toNat := by
  have hdigits : ∀ {value : Nat}, written ∈ Nat.toDigits 10 value → 32 ≤ written.toNat := by
    intro value hmem
    have hdigit := Nat.isDigit_of_mem_toDigits (by decide) (by decide) hmem
    simp only [Char.isDigit, Bool.and_eq_true, decide_eq_true_eq] at hdigit
    exact Nat.le_trans (by decide) (UInt32.le_iff_toNat_le.mp hdigit.1)
  rw [Int.toString_eq_repr, Int.repr_eq_if] at h
  split at h
  · rw [Nat.toList_repr] at h
    exact hdigits h
  · rw [String.toList_append, Nat.toList_repr, List.mem_append] at h
    rcases h with h | h
    · rw [List.mem_singleton.mp h]
      decide
    · exact hdigits h

theorem visible_intercalate {written : Char}
    (visible : ∀ text ∈ texts, written ∈ text → 32 ≤ written.toNat)
    (h : written ∈ [','].intercalate texts) : 32 ≤ written.toNat := by
  induction texts with
  | nil => cases h
  | cons first texts ih =>
    rw [List.forall_mem_cons] at visible
    cases texts with
    | nil =>
      rw [List.intercalate_singleton] at h
      exact visible.1 h
    | cons second texts =>
      rw [List.intercalate_cons_cons, List.mem_append, List.mem_append, List.mem_singleton] at h
      rcases h with (h | rfl) | h
      · exact visible.1 h
      · decide
      · exact ih visible.2 h

theorem visible_render (bound : Nat) (json : Json) (hbound : json.render.toList.length ≤ bound)
    {written : Char} (h : written ∈ json.render.toList) : 32 ≤ written.toNat := by
  induction bound generalizing json with
  | zero =>
    rw [List.length_eq_zero_iff.mp (Nat.le_zero.mp hbound)] at h
    cases h
  | succ bound ih =>
    cases json with
    | null =>
      have hall : "null".toList.all (fun letter => 32 ≤ letter.toNat) = true := by decide
      exact of_decide_eq_true (List.all_eq_true.mp hall written h)
    | bool value =>
      have htrue : "true".toList.all (fun letter => 32 ≤ letter.toNat) = true := by decide
      have hfalse : "false".toList.all (fun letter => 32 ≤ letter.toNat) = true := by decide
      cases value with
      | true => exact of_decide_eq_true (List.all_eq_true.mp htrue written h)
      | false => exact of_decide_eq_true (List.all_eq_true.mp hfalse written h)
    | number value => exact visible_toString h
    | text value => exact visible_quote h
    | array items =>
      rw [toList_render_array] at h hbound
      rw [List.length_cons, List.length_append] at hbound
      rw [List.mem_cons, List.mem_append, List.mem_singleton] at h
      rcases h with rfl | h | rfl
      · decide
      · refine visible_intercalate (fun text htext hwritten => ?_) h
        obtain ⟨item, hitem, rfl⟩ := List.mem_map.mp htext
        have hlength := length_le_of_mem_intercalate htext
        exact ih item (by omega) hwritten
      · decide
    | object fields =>
      rw [toList_render_object] at h hbound
      rw [List.length_cons, List.length_append] at hbound
      rw [List.mem_cons, List.mem_append, List.mem_singleton] at h
      rcases h with rfl | h | rfl
      · decide
      · refine visible_intercalate (fun text htext hwritten => ?_) h
        obtain ⟨field, hfield, rfl⟩ := List.mem_map.mp htext
        have hlength := length_le_of_mem_intercalate htext
        rw [writeField, List.length_append, List.length_cons] at hlength
        rw [writeField, List.mem_append, List.mem_cons] at hwritten
        rcases hwritten with hwritten | rfl | hwritten
        · exact visible_quote hwritten
        · decide
        · exact ih field.2 (by omega) hwritten
      · decide

theorem render_injective : Function.Injective Json.render := by
  intro first second h
  have hread : read (first.render.toList ++ []) = some (first, []) := read_render first rfl
  rw [h, read_render second rfl, Option.some.injEq, Prod.mk.injEq] at hread
  exact hread.1.symm

end RailYard.Library.JsonReader
