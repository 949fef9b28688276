import RailYard.Library.Json
import Mathlib.Data.List.Nodup

/-! Decoding of documents into records. A decoder changes a value that is
already there: `null` and absent members leave it as it is, a member may come
more than once, the case of a name does not matter, and a member that the
record does not have is refused. -/
namespace RailYard.Library.JsonStruct

variable {α ρ : Type}

abbrev Decoder (α : Type) := Json → α → Option α

def text : Decoder String
  | .null, value => some value
  | .text found, _ => some found
  | _, _ => none

def flag : Decoder Bool
  | .null, value => some value
  | .bool found, _ => some found
  | _, _ => none

def integer (fits : Int → Bool) : Decoder Int
  | .null, value => some value
  | .number found, _ => if fits found then some found else none
  | _, _ => none

def slice (zero : α) (element : Decoder α) : Decoder (List α)
  | .null, _ => some []
  | .array items, _ => items.mapM fun item => element item zero
  | _, _ => none

/-- The smallest character that differs from this one only in case, as far as
it is the letter of a name. -/
def foldChar (character : Char) : Char :=
  if 'a' ≤ character ∧ character ≤ 'z' then Char.ofNat (character.toNat - 32)
  else if character.toNat = 0x17f then 'S'
  else if character.toNat = 0x212a then 'K'
  else character

def foldName (name : String) : List Char := name.toList.map foldChar

structure Member (ρ : Type) where
  name : String
  decode : Decoder ρ

def member (name : String) (decoder : Decoder α) (get : ρ → α) (set : ρ → α → ρ) : Member ρ :=
  ⟨name, fun json value => (decoder json (get value)).map (set value)⟩

def assign (members : List (Member ρ)) (value : ρ) (entry : String × Json) : Option ρ := do
  let found ← members.find? fun member => foldName member.name = foldName entry.1
  found.decode entry.2 value

def struct (members : List (Member ρ)) : Decoder ρ
  | .null, value => some value
  | .object entries, value => entries.foldlM (assign members) value
  | _, _ => none

theorem assign_of_mem {found : Member ρ}
    (nodup : (members.map fun member => foldName member.name).Nodup) (h : found ∈ members)
    (value : ρ) (json : Json) :
    assign members value (found.name, json) = found.decode json value := by
  unfold assign
  cases hfind : members.find? fun member => foldName member.name = foldName found.name with
  | none =>
    have hall := List.find?_eq_none.mp hfind found h
    simp at hall
  | some other =>
    have hname := List.find?_some hfind
    rw [decide_eq_true_eq] at hname
    rw [List.inj_on_of_nodup_map nodup (List.mem_of_find?_eq_some hfind) h hname]
    rfl

theorem struct_object {members : List (Member ρ)}
    (nodup : (members.map fun member => foldName member.name).Nodup)
    {entries : List (Member ρ × Json)} (h : ∀ entry ∈ entries, entry.1 ∈ members) (value : ρ) :
    struct members (.object (entries.map fun entry => (entry.1.name, entry.2))) value =
      entries.foldlM (fun value entry => entry.1.decode entry.2 value) value := by
  unfold struct
  dsimp only
  induction entries generalizing value with
  | nil => rfl
  | cons entry entries ih =>
    rw [List.forall_mem_cons] at h
    rw [List.map_cons, List.foldlM_cons, List.foldlM_cons, assign_of_mem nodup h.1]
    exact congrArg _ (funext fun next => ih h.2 next)

theorem struct_zip (members : List (Member ρ))
    (nodup : (members.map fun member => foldName member.name).Nodup) (values : List Json)
    (value : ρ) :
    struct members (.object ((members.zip values).map fun entry => (entry.1.name, entry.2))) value =
      (members.zip values).foldlM (fun value entry => entry.1.decode entry.2 value) value :=
  struct_object nodup (fun _ hentry => (List.of_mem_zip hentry).1) value

theorem slice_array {zero : α} {encode : α → Json}
    (h : ∀ item ∈ items, element (encode item) zero = some item) (value : List α) :
    slice zero element (.array (items.map encode)) value = some items := by
  unfold slice
  dsimp only
  induction items with
  | nil => rfl
  | cons item items ih =>
    rw [List.forall_mem_cons] at h
    rw [List.map_cons, List.mapM_cons, h.1, ih h.2]
    rfl

end RailYard.Library.JsonStruct
