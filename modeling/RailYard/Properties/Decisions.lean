import RailYard.Refinement.Decisions

/-! The decision log as the account of all leases and of the fairness of the
scheduler. -/
namespace RailYard.Properties
open Store Scheduler Refinement

structure Explanation (db : Database) : Prop where
  sequences : ∃ n : Nat, db.schedulerSeq = n ∧ db.decisionLog.keys = firstNumbers n ∧
    (decisionRecords db).map Record.sequence = firstNumbers n
  /-- A job has been leased as often as it was granted. -/
  grants : ∀ id job, db.jobs.get? id = some job →
    job.attemptNo = grantCount (decisionRecords db) id ∧ job.leaseGeneration = job.attemptNo
  attempts : ∀ id job, db.jobs.get? id = some job → ∀ number,
    ((db.attempts.get? (id, number)).isSome ↔ 1 ≤ number ∧ number ≤ job.attemptNo) ∧
    ∀ attempt, db.attempts.get? (id, number) = some attempt → attempt.leaseGeneration = number
  /-- Every decision starts from what the records before it put out. -/
  inputs : ∀ earlier record later, decisionRecords db = earlier ++ record :: later →
    record.input.cursor = latestCursor earlier ∧ ∀ queue ∈ record.input.queues,
      queue.deficit = latestDeficit earlier (queue.tenantID, queue.name)
  cursor : db.schedulerCursor = latestCursor (decisionRecords db)
  deficits : ∀ key queue, db.queueState.get? key = some queue →
    queue.deficit = latestDeficit (decisionRecords db) key

theorem attempts_numbered (explained : Explained sha256 db) (fences : Lifecycle.Fences (yardOf db))
    {id : String} (hjob : db.jobs.get? id = some job) (number : Int) :
    (db.attempts.get? (id, number)).isSome ↔ 1 ≤ number ∧ number ≤ job.attemptNo := by
  have hissued : (yardOf db).issued id = job.attemptNo := Lifecycle.Yard.issued_of_get? hjob
  constructor
  · intro hsome
    obtain ⟨attempt, hattempt⟩ := Option.isSome_iff_exists.mp hsome
    obtain ⟨row, hrow, hpositive, hle, _⟩ := fences.attempt id number attempt hattempt
    change db.jobs.get? id = some row at hrow
    rw [hjob, Option.some.injEq] at hrow
    rw [hrow]
    exact ⟨hpositive, hle⟩
  · rintro ⟨hpositive, hle⟩
    rw [← hissued] at hle
    exact explained.consecutive id number hpositive hle

/-- In every reachable state the decision log explains every lease and all that
the scheduler carries from one decision to the next. -/
theorem decisions_explain (env : Env) (options : Options) (activities : List Activity) :
    Explanation (run env (freshStore options) activities).db := by
  have sound := sound_run env options activities
  have explained := explained_run env options activities
  have hrecords := explained.decisionRecords_eq
  generalize (run env (freshStore options) activities).db = db at sound explained hrecords ⊢
  refine ⟨?_, ?_, ?_, ?_, ?_, ?_⟩
  · rw [hrecords]
    exact ⟨_, explained.counter, explained.keys, explained.committed.sequences⟩
  · intro id job hjob
    rw [hrecords, ← explained.counted, Lifecycle.Yard.issued_of_get? hjob]
    exact ⟨rfl, (sound.fences.generation id job hjob).1⟩
  · intro id job hjob number
    refine ⟨attempts_numbered explained sound.fences hjob number, fun attempt hattempt => ?_⟩
    obtain ⟨_, _, _, _, hgeneration⟩ := sound.fences.attempt id number attempt hattempt
    exact hgeneration
  · intro earlier record later hsplit
    rw [hrecords] at hsplit
    obtain ⟨_, input, hentered⟩ := explained.committed.entered hsplit
    exact ⟨hentered.input_cursor, fun queue hqueue => hentered.input_deficits hqueue⟩
  · rw [hrecords]
    exact explained.cursor
  · intro key queue hqueue
    rw [hrecords, ← explained.deficits]
    unfold deficitOf
    rw [hqueue]
    rfl

end RailYard.Properties
