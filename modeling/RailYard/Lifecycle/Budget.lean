import RailYard.Lifecycle.History

/-! The attempts that jobs are allowed. A lease uses one up, a job that waits
has one left, and only an operator's release gives one back. -/
namespace RailYard.Lifecycle
open Domain Store Relation

def regained (id : String) (history : List Entry) : Nat :=
  (entriesOf id history).countP fun entry => entry.eventType = .operator "release"

def awaited (row : JobRow) : Int := if row.state.leased || row.state.terminal then 0 else 1

def Affords (row : JobRow) (more : Nat) : Prop :=
  0 < row.retry.maxAttempts ∧ row.attemptNo + awaited row ≤ row.retry.maxAttempts + more

def Budgeted (yard : Yard) : Prop :=
  ∀ id row, yard.jobs.get? id = some row → Affords row (regained id yard.history)

theorem regained_record (id jobID : String) (history : List Entry) (eventType : EventType)
    (state : JobState) (stateVersion : Int) :
    regained id (record history jobID eventType state stateVersion) = regained id history +
      if jobID = id ∧ eventType = .operator "release" then 1 else 0 := by
  by_cases hid : jobID = id <;>
    simp [regained, entriesOf, record, List.filter_append, List.countP_singleton, hid]

theorem Affords.record {id : String} (h : Affords row (regained id history)) (jobID : String)
    (eventType : EventType) (state : JobState) (stateVersion : Int) :
    Affords row (regained id (record history jobID eventType state stateVersion)) := by
  rw [regained_record]
  exact ⟨h.1, h.2.trans (by omega)⟩

theorem Move.Valid.affords {move : Move} (valid : move.Valid policy yard)
    (h : Affords move.row more) :
    Affords move.next (more + if move.eventType = .operator "release" then 1 else 0) := by
  have halive := valid.alive
  have hleft := valid.budget.left
  unfold Affords awaited at h ⊢
  rw [valid.identity.retry]
  cases valid.kind with
  | lease _ pending _ scheduled attemptNo =>
    rw [pending] at h
    rw [scheduled, attemptNo]
    grind [JobState.leased, JobState.terminal]
  -- A lease that ends before its job leaves an attempt, or an operator has ended it.
  | start _ _ _ same | close _ _ _ same | ready _ _ _ same | override _ _ _ same
  | cascade _ _ _ _ same =>
    rw [same.attemptNo]
    grind

theorem Budgeted.admission {batch : Batch} (h : Budgeted yard) (valid : batch.Valid yard) :
    Budgeted (batch.apply yard) := by
  intro id row hrow
  rcases Batch.get?_apply_cases valid hrow with ⟨hmem, _⟩ | ⟨hid, hold⟩
  · have hnew := valid.rows id row hmem
    have hpositive : 0 < row.retry.maxAttempts := by
      rcases hnew.retry with hpositive | ⟨other, found, hfound, hretry⟩
      · exact hpositive
      · exact hretry ▸ (h other found hfound).1
    refine ⟨hpositive, ?_⟩
    unfold awaited
    rw [hnew.attemptNo]
    split <;> omega
  · unfold regained
    rw [show entriesOf id (batch.apply yard).history = _ from
      entriesOf_admissions_of_notMem batch.jobs yard.history hid]
    exact h id row hold

theorem Budgeted.micro (yard yard' : Yard) (h : Budgeted yard) (hmicro : Micro policy yard yard') :
    Budgeted yard' := by
  cases hmicro with
  | tenant | queue | heartbeat => exact h
  | admission batch valid => exact h.admission valid
  | note => exact fun id row hrow => (h id row hrow).record _ _ _ _
  | move move valid =>
    intro id row hrow
    rcases Move.get?_apply_cases valid hrow with ⟨rfl, rfl⟩ | ⟨_, hold⟩
    · have hcount : regained move.id (move.apply yard).history = _ := regained_record ..
      rw [hcount]
      simpa using valid.affords (h _ _ valid.found)
    · exact (h id row hold).record _ _ _ _

theorem retrying_of_micros {id : String} (h : ReflTransGen (Micro policy) yard yard')
    (hrow : yard'.jobs.get? id = some row) (hretrying : row.state = .retrying) :
    yard.jobs.get? id = some row ∨ policy.backoff id row.attemptNo row.availableAt := by
  induction h generalizing row with
  | refl => exact .inl hrow
  | tail _ hlast ih =>
    cases hlast with
    | tenant | queue | heartbeat | note => exact ih hrow hretrying
    | admission batch valid =>
      rcases Batch.get?_apply_cases valid hrow with ⟨hmem, _⟩ | ⟨_, hold⟩
      · rcases (valid.rows id row hmem).state with hstate | hstate <;>
          cases hretrying.symm.trans hstate
      · exact ih hold hretrying
    | move move valid =>
      rcases Move.get?_apply_cases valid hrow with ⟨rfl, rfl⟩ | ⟨_, hold⟩
      · exact .inr (valid.budget.backoff hretrying)
      · exact ih hold hretrying

end RailYard.Lifecycle
