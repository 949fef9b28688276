import RailYard.Lifecycle.Leases
import RailYard.Lifecycle.Slots

/-! The slots that a worker holds. Only a lease adds to them, and it adds the
cost of its job to the worker that it is granted to. -/
namespace RailYard.Lifecycle
open Library Store

/-- What a job contributes: its cost, if it is scheduled or running under an
open attempt of the worker. -/
def heldFor (attempts : Table (String × Int) AttemptRow) (workerID id : String) (row : JobRow) :
    Int :=
  match attempts.get? (id, row.attemptNo) with
  | some attempt =>
    if row.state.leased && attempt.state.isOpen && attempt.workerID = workerID then row.slotCost
    else 0
  | none => 0

def Yard.held (yard : Yard) (workerID : String) : Int :=
  yard.jobs.sumBy (heldFor yard.attempts workerID)

theorem heldFor_nonneg {attempts : Table (String × Int) AttemptRow} {id : String}
    (h : 0 < row.slotCost) : 0 ≤ heldFor attempts workerID id row := by
  unfold heldFor
  split
  · split <;> omega
  · exact Int.le_refl 0

theorem heldFor_of_unleased (attempts : Table (String × Int) AttemptRow) (id : String)
    (h : row.state.leased = false) : heldFor attempts workerID id row = 0 := by
  unfold heldFor
  split
  · rw [h]
    rfl
  · rfl

theorem Move.held_apply {move : Move} (valid : move.Valid policy yard) (workerID : String) :
    (move.apply yard).held workerID = yard.held workerID -
      heldFor yard.attempts workerID move.id move.row +
        heldFor move.attempts workerID move.id move.next := by
  unfold Yard.held Move.apply
  refine Table.sumBy_modify_of_same _ _ valid.found fun other found hother => ?_
  unfold heldFor
  rw [valid.kind.attempts_ne hother]

theorem Move.heldFor_next {move : Move} (quiet : ¬policy.granting) (fences : Fences yard)
    (valid : move.Valid policy yard) (leased : move.next.state.leased = true) :
    heldFor move.attempts workerID move.id move.next =
      heldFor yard.attempts workerID move.id move.row := by
  obtain ⟨hbefore, hnumber⟩ :=
    (valid.kind.leased_cases leased).resolve_left fun h => quiet h.1
  obtain ⟨attempt, hattempt, hopen, _⟩ := fences.openAttempt valid.found hbefore
  obtain ⟨expected, hexpected, hexpectedOpen⟩ := exists_leaseState leased
  obtain ⟨attempt', hattempt', hstate⟩ := valid.kind.current fences valid.found hexpected
  rcases valid.kind.attempts_cases hattempt' with ⟨old, hold, hsame⟩ | ⟨_, _, _, granting⟩
  · rw [hnumber, hattempt, Option.some.injEq] at hold
    subst hold
    unfold heldFor
    rw [hattempt', hattempt]
    dsimp only
    rw [leased, hbefore, hopen, hstate, hexpectedOpen, hsame.workerID, valid.identity.slotCost]
  · exact (quiet granting).elim

theorem Move.held_le {move : Move} (quiet : ¬policy.granting) (fences : Fences yard)
    (accounts : Accounts yard) (valid : move.Valid policy yard) (workerID : String) :
    (move.apply yard).held workerID ≤ yard.held workerID := by
  have hnonneg : 0 ≤ heldFor yard.attempts workerID move.id move.row :=
    heldFor_nonneg (accounts.cost move.id move.row valid.found)
  rw [Move.held_apply valid]
  cases hleased : move.next.state.leased with
  | true =>
    rw [Move.heldFor_next quiet fences valid hleased]
    omega
  | false =>
    rw [heldFor_of_unleased move.attempts move.id hleased]
    omega

theorem Micro.held_le (quiet : ¬policy.granting) (fences : Fences yard) (accounts : Accounts yard)
    (h : Micro policy yard yard') (workerID : String) :
    yard'.held workerID ≤ yard.held workerID := by
  cases h with
  | tenant | queue | note => exact Int.le_refl _
  | admission batch valid =>
    refine (Table.sumBy_insertAll_zero _ fun entry hentry => ?_).le
    apply heldFor_of_unleased
    rcases (valid.rows entry.1 entry.2 hentry).state with hstate | hstate <;> rw [hstate] <;> rfl
  | heartbeat key edit keeps state =>
    refine Table.sumBy_le _ fun id row hrow => le_of_eq ?_
    unfold heldFor
    dsimp only
    rw [Table.get?_modify]
    by_cases hkey : (id, row.attemptNo) = key
    · rw [if_pos hkey, hkey]
      cases yard.attempts.get? key with
      | none => rfl
      | some attempt =>
        dsimp only [Option.map_some]
        rw [state, (keeps attempt).workerID]
    · rw [if_neg hkey]
  | move move valid => exact Move.held_le quiet fences accounts valid workerID

theorem Move.held_le_add {move : Move} {attempt : AttemptRow} (accounts : Accounts yard)
    (valid : move.Valid policy yard)
    (hattempt : move.attempts.get? (move.id, move.next.attemptNo) = some attempt)
    (workerID : String) : (move.apply yard).held workerID ≤ yard.held workerID +
      if attempt.workerID = workerID then move.row.slotCost else 0 := by
  have hcost := accounts.cost move.id move.row valid.found
  have hnonneg : 0 ≤ heldFor yard.attempts workerID move.id move.row := heldFor_nonneg hcost
  have hnext : heldFor move.attempts workerID move.id move.next ≤
      if attempt.workerID = workerID then move.row.slotCost else 0 := by
    unfold heldFor
    rw [hattempt]
    dsimp only
    rw [valid.identity.slotCost]
    by_cases hworker : attempt.workerID = workerID
    · rw [if_pos hworker]
      split <;> omega
    · rw [if_neg hworker, if_neg (by simp [hworker])]
  rw [Move.held_apply valid]
  omega

end RailYard.Lifecycle
