import Mathlib.Data.List.Basic

/-! Checks that report what they find. A check computes a value and a list of
findings; checks one after the other report one after the other, so a check is
silent exactly if all its parts are. -/
namespace RailYard.Library

structure Findings (ν α : Type) where
  value : α
  found : List ν

namespace Findings

variable {ν α β κ ρ σ : Type}

instance : Monad (Findings ν) where
  pure value := ⟨value, []⟩
  bind check next := ⟨(next check.value).value, check.found ++ (next check.value).found⟩

def report (finding : ν) : Findings ν Unit := ⟨(), [finding]⟩

def reportIf (condition : Prop) [Decidable condition] (finding : ν) : Findings ν Unit :=
  if condition then report finding else pure ()

def Silent (check : Findings ν α) : Prop := check.found = []

@[simp] theorem silent_pure (value : α) : Silent (pure value : Findings ν α) := rfl

@[simp] theorem silent_report (finding : ν) : ¬Silent (report finding) := List.cons_ne_nil _ _

theorem silent_bind {check : Findings ν α} :
    Silent (check >>= next) ↔ Silent check ∧ Silent (next check.value) :=
  List.append_eq_nil_iff

theorem value_bind (check : Findings ν α) (next : α → Findings ν β) :
    (check >>= next).value = (next check.value).value := rfl

@[simp] theorem silent_reportIf {condition : Prop} [Decidable condition] :
    Silent (reportIf condition finding) ↔ ¬condition := by
  unfold reportIf
  split <;> simp [*]

theorem silent_forM {items : List α} :
    Silent (items.forM body) ↔ ∀ item ∈ items, Silent (body item) := by
  induction items with
  | nil => simp [List.forM]
  | cons item rest ih =>
    rw [List.forall_mem_cons, ← ih]
    exact silent_bind

theorem silent_zipIdx {rows : List ρ} : Silent (rows.zipIdx.forM body) ↔
      ∀ (place : Nat) (row : ρ), rows[place]? = some row → Silent (body (row, place)) := by
  rw [silent_forM]
  constructor
  · intro h place row hrow
    exact h (row, place) (List.mk_mem_zipIdx_iff_getElem?.mpr hrow)
  · intro h entry hentry
    exact h entry.2 entry.1 (List.mem_zipIdx_iff_getElem?.mp hentry)

theorem value_foldlM (body : σ → ρ → Findings ν σ) (state : σ) (rows : List ρ) :
    (rows.foldlM body state).value = rows.foldl (fun state row => (body state row).value) state := by
  induction rows generalizing state with
  | nil => rfl
  | cons row rest ih => exact ih _

theorem silent_foldlM {body : σ → ρ → Findings ν σ} {state : σ} {rows : List ρ} :
    Silent (rows.foldlM body state) ↔ ∀ before row after, rows = before ++ row :: after →
      Silent (body (before.foldl (fun state row => (body state row).value) state) row) := by
  induction rows generalizing state with
  | nil => simp
  | cons first rest ih =>
    rw [List.foldlM_cons, silent_bind, ih]
    constructor
    · rintro ⟨hfirst, hrest⟩ before row after heq
      cases before with
      | nil =>
        obtain ⟨rfl, rfl⟩ := List.cons.inj heq
        exact hfirst
      | cons _ before =>
        obtain ⟨rfl, rfl⟩ := List.cons.inj heq
        exact hrest before row after rfl
    · intro h
      exact ⟨h [] first rest rfl, fun before row after heq =>
        h (first :: before) row after (congrArg (first :: ·) heq)⟩

end Findings

end RailYard.Library
