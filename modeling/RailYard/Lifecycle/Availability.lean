import RailYard.Lifecycle.History
import RailYard.Lifecycle.Leases

/-! The time from which a job is available. It is fixed at admission; before the
first lease nothing but an operator's release replaces it. -/
namespace RailYard.Lifecycle
open Store

variable {id : String}

def Yard.Released (yard : Yard) (id : String) : Prop :=
  ∃ entry ∈ yard.history, entry.jobID = id ∧ entry.eventType = .operator "release"

theorem prefix_admissions (jobs : List (String × JobRow)) (history : List Entry) :
    history <+: admissions jobs history := by
  induction jobs generalizing history with
  | nil => exact List.prefix_refl _
  | cons entry rest ih => exact (List.prefix_append _ _).trans (ih _)

theorem Micro.prefix_history (h : Micro policy yard yard') : yard.history <+: yard'.history := by
  cases h with
  | tenant => exact List.prefix_refl _
  | queue => exact List.prefix_refl _
  | admission batch _ => exact prefix_admissions batch.jobs yard.history
  | heartbeat => exact List.prefix_refl _
  | note => exact List.prefix_append _ _
  | move move _ => exact List.prefix_append _ _

theorem Yard.Released.micro (h : yard.Released id) (hmicro : Micro policy yard yard') :
    yard'.Released id := by
  obtain ⟨entry, hentry, hreleased⟩ := h
  exact ⟨entry, hmicro.prefix_history.subset hentry, hreleased⟩

def AvailableFrom (time : Int) (row : JobRow) : Prop :=
  row.attemptNo = 0 → row.state.terminal = false → row.availableAt = time

theorem Fences.unleased (fences : Fences yard) (hrow : yard.jobs.get? id = some row)
    (hnone : row.attemptNo = 0) :
    row.state.leased = false := by
  refine Bool.eq_false_iff.mpr fun hleased => ?_
  obtain ⟨attempt, hattempt, _⟩ := fences.openAttempt hrow hleased
  obtain ⟨_, _, hpositive, _⟩ := fences.attempt _ _ _ hattempt
  omega

/-- The job is available from this time on, unless an operator has released it. -/
def Punctual (id : String) (time : Int) (yard : Yard) : Prop :=
  yard.Released id ∨ ∃ row, yard.jobs.get? id = some row ∧ AvailableFrom time row

theorem Move.punctual {move : Move} {row : JobRow} (fences : Fences yard)
    (valid : move.Valid policy yard) (hrow : yard.jobs.get? id = some row)
    (htime : AvailableFrom time row) : Punctual id time (move.apply yard) := by
  by_cases hid : id = move.id
  · rw [hid, valid.found, Option.some.injEq] at hrow
    subst hrow
    by_cases hoperator : move.eventType = .operator "release"
    · exact .inl ⟨_, List.mem_append_right _ (List.mem_singleton_self _), hid.symm, hoperator⟩
    · refine .inr ⟨move.next, hid ▸ Move.get?_apply_self valid, fun hnone hlive => ?_⟩
      -- A job without a lease has had none before.
      have hbefore : move.row.attemptNo = 0 := by
        have hle := valid.kind.attemptNo_le
        have hnonneg := (fences.generation _ _ valid.found).2
        omega
      rw [valid.punctual (fences.unleased valid.found hbefore) hlive hoperator]
      exact htime hbefore valid.alive
  · exact .inr ⟨row, (Move.get?_apply_ne move hid).trans hrow, htime⟩

theorem Punctual.micro (h : Punctual id time yard) (fences : Fences yard)
    (hmicro : Micro policy yard yard') : Punctual id time yard' := by
  rcases h with hreleased | ⟨row, hrow, htime⟩
  · exact .inl (hreleased.micro hmicro)
  cases hmicro with
  | admission batch valid => exact .inr ⟨row, Batch.get?_apply_old batch hrow, htime⟩
  | move move valid => exact Move.punctual fences valid hrow htime
  | _ => exact .inr ⟨row, hrow, htime⟩

end RailYard.Lifecycle
