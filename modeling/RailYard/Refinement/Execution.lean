import RailYard.Refinement.Reaping
import RailYard.Store.Leases

/-! Starting, keeping and completing a lease as moves. A batch goes on after a
stale item because such an item has written nothing. -/
namespace RailYard.Refinement
open Library Library.Transaction Domain Store
open Lifecycle Relation

theorem startAttempt_ok {ref : LeaseRef} {job : JobRow} (allows : policy.Allows .start)
    (hjob : (yardOf db).jobs.get? ref.jobID = some job) (scheduled : job.state = .scheduled)
    (attemptNo : job.attemptNo = ref.attemptNo)
    (h : startAttempt ref job.stateVersion now db = .ok () db') :
    Step policy (yardOf db) (yardOf db') := by
  obtain ⟨_, db1, hattempt, h⟩ := bind_ok h
  have hyard1 := updateAttempt_ok hattempt
  obtain ⟨_, db2, hupdate, h⟩ := bind_ok h
  have hyard2 := updateJob_read (by rw [hyard1]; exact hjob) (decide_eq_true rfl) hupdate
  have hyard3 := addEvent_ok h
  let move : Move := {
    id := ref.jobID
    row := job
    next := { job with
      state := .running, stateVersion := job.stateVersion + 1, updatedAt := timeToDB now }
    eventType := .attemptStarted
    attempts := (yardOf db).attempts.modify (ref.jobID, job.attemptNo) fun attempt =>
      { attempt with state := .running, startedAt := some (timeToDB now) }
    readySeq := (yardOf db).readySeq }
  have hleased : job.state.leased = true := by rw [scheduled]; rfl
  have hvalid : move.Valid policy (yardOf db) := {
    found := hjob
    alive := by
      change job.state.terminal = false
      rw [scheduled]
      rfl
    identity := ⟨rfl, rfl, rfl, rfl⟩
    version := rfl
    ended := fun hended => by cases hended
    event := rfl
    released := fun hreleased => by cases hreleased
    punctual := fun _ _ _ => rfl
    readiness := .kept (by
      change job.state ≠ .pending
      rw [scheduled]
      decide) JobState.noConfusion rfl rfl
    budget := .other EventType.noConfusion EventType.noConfusion JobState.noConfusion
      fun _ hidle => by cases hidle
    edge := by
      change policy.edges _ _ job.state _
      rw [scheduled]
      exact allows _ _ _ _ (.started _)
    kind := .start (timeToDB now) scheduled rfl ⟨rfl, rfl⟩ rfl }
  have hdelta : move.delta = 0 := by
    unfold Move.delta
    rw [slots_of_leased rfl, slots_of_leased hleased]
    exact sub_self _
  have happly : move.apply (yardOf db) = yardOf db' := by
    rw [Move.apply_of_alive _ rfl, hdelta, Yard.shift_zero, hyard3, hyard2, hyard1, ← attemptNo]
    rfl
  rw [← happly]
  exact Move.step hvalid rfl

/-- A lease that a caller may still use: the caller names it in full, it is the
current one of its job and it has not expired. -/
structure Usable (sha256 : Hash) (workerID : String) (ref : LeaseRef) (now : Time) (db : Database)
    (attempt : AttemptRow) (job : JobRow) : Prop where
  found : db.attempts.get? (ref.jobID, ref.attemptNo) = some attempt
  current : db.jobs.get? ref.jobID = some job
  fenced : fenced sha256 workerID ref attempt job = true
  alive : timeToDB now < attempt.expiresAt

theorem markRunningTx_cases (sha256 : Hash) (workerID : String) (ref : LeaseRef) (now : Time)
    (db : Database) :
    markRunningTx sha256 workerID ref now db = .error .staleLease db ∨
      markRunningTx sha256 workerID ref now db = .ok () db ∨
      ∃ attempt job, Usable sha256 workerID ref now db attempt job ∧ attempt.state = .leased ∧
        job.state = .scheduled ∧
        markRunningTx sha256 workerID ref now db = startAttempt ref job.stateVersion now db := by
  unfold markRunningTx
  rw [bind_run (select_run ..), bind_run (select_run ..)]
  cases hattempt : (attempts.read db).get? (ref.jobID, ref.attemptNo) with
  | none => exact .inl rfl
  | some attempt =>
    cases hjob : (jobs.read db).get? ref.jobID with
    | none => exact .inl rfl
    | some job =>
      dsimp only
      by_cases hfenced : fenced sha256 workerID ref attempt job = true
      · rw [bind_run (require_run _ _ hfenced)]
        by_cases halive : timeToDB now < attempt.expiresAt
        · rw [bind_run (require_run _ _ halive)]
          by_cases hrunning : attempt.state = .running ∧ job.state = .running
          · rw [if_pos hrunning]
            exact .inr (.inl rfl)
          · rw [if_neg hrunning]
            by_cases hleased : attempt.state = .leased ∧ job.state = .scheduled
            · rw [bind_run (require_run _ _ hleased)]
              exact .inr (.inr ⟨attempt, job, ⟨hattempt, hjob, hfenced, halive⟩, hleased.1,
                hleased.2, rfl⟩)
            · rw [bind_run_error (require_run_error _ _ hleased)]
              exact .inl rfl
        · rw [bind_run_error (require_run_error _ _ halive)]
          exact .inl rfl
      · rw [bind_run_error (require_run_error _ _ hfenced)]
        exact .inl rfl

theorem markRunningTx_ok (allows : policy.Allows .start)
    (h : markRunningTx sha256 workerID ref now db = .ok () db') :
    ReflTransGen (Step policy) (yardOf db) (yardOf db') := by
  rcases markRunningTx_cases sha256 workerID ref now db with
    herror | hsame | ⟨attempt, job, husable, _, hscheduled, hstart⟩
  · rw [herror] at h
    cases h
  · rw [hsame] at h
    cases h
    exact .refl
  · rw [hstart] at h
    have hfenced := husable.fenced
    unfold fenced at hfenced
    simp only [Bool.and_eq_true, decide_eq_true_eq] at hfenced
    exact .single (startAttempt_ok allows husable.current hscheduled hfenced.1.2 h)

theorem guarded_edit (R : AttemptRow → AttemptRow → Prop) (refl : ∀ attempt, R attempt attempt)
    {guard : AttemptRow → Bool} {change : AttemptRow → AttemptRow}
    (h : ∀ attempt, R attempt (change attempt)) (attempt : AttemptRow) :
    R attempt (if guard attempt then change attempt else attempt) := by
  split
  · exact h attempt
  · exact refl attempt

theorem heartbeatOne_ok
    (h : heartbeatOne sha256 workerID now requestedExpiry ref db = .ok result db') :
    ReflTransGen (Step policy) (yardOf db) (yardOf db') := by
  obtain ⟨_, _, hselect, h⟩ := bind_ok h
  obtain ⟨rfl, rfl⟩ := select_ok hselect
  obtain ⟨accepted, db1, hupdate, h⟩ := bind_ok h
  have hsame : db1 = db' := by
    split at h
    · obtain ⟨found, _, hselect, h⟩ := bind_ok h
      obtain ⟨_, rfl⟩ := select_ok hselect
      cases found with
      | none => exact (throw_ok h).elim
      | some row => exact (pure_ok h).2
    · exact (pure_ok h).2
  subst hsame
  rw [updateAttempt_ok hupdate]
  refine .single (.micro (.heartbeat _ _ ?_ ?_ ?_) fun id row hrow _ => .inl hrow)
  · exact guarded_edit SameHolder .refl fun _ => ⟨rfl, rfl, rfl⟩
  · exact guarded_edit (fun attempt edited => edited.state = attempt.state) (fun _ => rfl)
      fun _ => rfl
  · exact guarded_edit SameReceipt .refl fun _ => ⟨rfl, rfl, rfl, rfl⟩

theorem heartbeat_ok (h : heartbeat sha256 workerID refs now leaseTTL db = .ok results db') :
    ReflTransGen (Step policy) (yardOf db) (yardOf db') := by
  unfold heartbeat at h
  induction refs generalizing db results with
  | nil =>
    obtain ⟨_, rfl⟩ := pure_ok h
    exact .refl
  | cons ref rest ih =>
    obtain ⟨_, between, hone, h⟩ := bind_ok h
    obtain ⟨_, _, hrest⟩ := bind_pure_ok h
    exact (heartbeatOne_ok hone).trans (ih hrest)

theorem batchTx_ok {α β : Type} {R : Yard → Yard → Prop} {context : String} {body : α → Tx β}
    {items : List α} {index : Nat} {results : List (Except Error β)} {start : Database}
    (hok : ∀ item ∈ items, ∀ before after value, ReflTransGen R (yardOf start) (yardOf before) →
      body item before = .ok value after → ReflTransGen R (yardOf before) (yardOf after))
    (hstale : ∀ item ∈ items, ∀ before after error, body item before = .error error after →
      Error.is .staleLease error = true → after = before)
    (hreached : ReflTransGen R (yardOf start) (yardOf db))
    (h : batchTx context body index items db = .ok results db') :
    ReflTransGen R (yardOf start) (yardOf db') := by
  induction items generalizing db index results with
  | nil =>
    obtain ⟨_, rfl⟩ := pure_ok h
    exact hreached
  | cons item rest ih =>
    have hmem : item ∈ item :: rest := List.mem_cons_self ..
    have htail : ∀ other ∈ rest, other ∈ item :: rest :=
      fun other hother => List.mem_cons_of_mem _ hother
    have hrest : ∀ {state index results}, ReflTransGen R (yardOf start) (yardOf state) →
        batchTx context body index rest state = .ok results db' →
        ReflTransGen R (yardOf start) (yardOf db') :=
      ih (fun other hother => hok other (htail other hother))
        (fun other hother => hstale other (htail other hother))
    obtain ⟨result, between, hitem, h⟩ := bind_ok h
    rcases attempt_ok hitem with ⟨value, rfl, hvalue⟩ | ⟨error, rfl, herror⟩
    · obtain ⟨_, _, hloop⟩ := bind_pure_ok h
      exact hrest (hreached.trans (hok item hmem db between value hreached hvalue)) hloop
    · obtain ⟨his, h⟩ := require_bind h
      obtain ⟨_, _, hloop⟩ := bind_pure_ok h
      rw [hstale item hmem db between error herror his] at hloop
      exact hrest hreached hloop

theorem markRunningTx_error (h : markRunningTx sha256 workerID ref now db = .error error db') :
    db' = db := by
  rcases markRunningTx_cases sha256 workerID ref now db with
    herror | hsame | ⟨_, job, _, _, _, hstart⟩
  · rw [herror] at h
    cases h
    rfl
  · rw [hsame] at h
    cases h
  · -- No statement of the start itself can fail.
    rw [hstart] at h
    have hnever : FailsWith (fun _ => False) (startAttempt ref job.stateVersion now) :=
      .bind (.update attempts _ _ _) fun _ => .bind (.update jobs _ _ _) fun _ => .mutate _
    exact (hnever db error db' h).elim

theorem applyCompletionTx_cases (sha256 : Hash) (completion : Completion) (now : Time)
    (db : Database) :
    (∃ receipt, applyCompletionTx sha256 completion now db = .ok receipt db) ∨
      (∃ error, applyCompletionTx sha256 completion now db = .error error db) ∨
      ∃ attempt job outcome,
        Usable sha256 completion.workerID completion.toLeaseRef now db attempt job ∧
        attempt.completionRequestDigest.isNone = true ∧ attempt.state.isOpen = true ∧
        job.state.leased = true ∧
        completionOutcome sha256 completion job.retry now = .ok outcome ∧
        applyCompletionTx sha256 completion now db =
          commitCompletion sha256 completion job outcome.1 outcome.2 now db := by
  unfold applyCompletionTx
  rw [bind_run (select_run ..), bind_run (select_run ..)]
  cases hattempt : (attempts.read db).get? (completion.jobID, completion.attemptNo) with
  | none => exact .inr (.inl ⟨_, rfl⟩)
  | some attempt =>
    cases hjob : (jobs.read db).get? completion.jobID with
    | none => exact .inr (.inl ⟨_, rfl⟩)
    | some job =>
      dsimp only
      by_cases hheld : attempt.workerID = completion.workerID ∧
          attempt.leaseGeneration = completion.generation ∧
          attempt.tokenHash = tokenHash sha256 completion.token
      · rw [bind_run (require_run _ _ hheld)]
        by_cases hdigest : attempt.completionRequestDigest.isSome = true
        · rw [if_pos hdigest]
          cases duplicateReceipt sha256 completion attempt with
          | ok receipt => exact .inl ⟨receipt, rfl⟩
          | error error => exact .inr (.inl ⟨error, rfl⟩)
        · rw [if_neg hdigest]
          by_cases hcurrent : job.attemptNo = completion.attemptNo ∧
              job.leaseGeneration = completion.generation ∧ job.state.leased ∧
              attempt.state.isOpen ∧ timeToDB now < attempt.expiresAt
          · rw [bind_run (require_run _ _ hcurrent)]
            cases houtcome : completionOutcome sha256 completion job.retry now with
            | error error => exact .inr (.inl ⟨error, rfl⟩)
            | ok outcome =>
              obtain ⟨hworker, hgeneration, htoken⟩ := hheld
              obtain ⟨hattemptNo, hlease, hleased, hopen, halive⟩ := hcurrent
              refine .inr (.inr ⟨attempt, job, outcome, ⟨hattempt, hjob, ?_, halive⟩, ?_, hopen,
                hleased, houtcome, rfl⟩)
              · simp [fenced, hworker, hgeneration, htoken, hattemptNo, hlease]
              · rwa [Bool.not_eq_true, Option.isSome_eq_false_iff] at hdigest
          · rw [bind_run_error (require_run_error _ _ hcurrent)]
            exact .inr (.inl ⟨_, rfl⟩)
      · rw [bind_run_error (require_run_error _ _ hheld)]
        exact .inr (.inl ⟨_, rfl⟩)

def completedEdit (sha256 : Hash) (completion : Completion) (nextState : JobState)
    (nextVersion : Int) (now : Time) (attempt : AttemptRow) : AttemptRow :=
  { attempt with
    state := completedAttemptState completion
    completedAt := some (timeToDB now)
    failure := reportedFailure completion
    completionRequestDigest := some (completionDigest sha256 completion)
    receiptState := some nextState
    receiptStateVersion := some nextVersion
    receiptCommittedAt := some (timeToDB now) }

theorem completedEdit_closes (completion : Completion) (nextState : JobState)
    (nextVersion : Int) : Closes (completedEdit sha256 completion nextState nextVersion now) := by
  refine ⟨fun attempt => ?_, fun _ => ⟨rfl, rfl, rfl⟩⟩
  change (completedAttemptState completion).isOpen = false
  unfold completedAttemptState
  split <;> rfl

theorem completionOutcome_cases {outcome : JobState × Time}
    (h : completionOutcome sha256 completion retry now = .ok outcome) :
    outcome.1 = .succeeded ∨ outcome.1 = .retrying ∨ outcome.1.unsuccessful = true := by
  unfold completionOutcome at h
  split at h
  · cases h
    exact .inl rfl
  · split at h
    · cases hrelease : releaseAt sha256 now completion.jobID completion.attemptNo with
      | error error => rw [hrelease] at h; cases h
      | ok availableAt => rw [hrelease] at h; cases h; exact .inr (.inl rfl)
    · split at h <;> cases h <;> exact .inr (.inr rfl)

/-- When a job whose attempt failed at `now` is available again. -/
def Backoff (sha256 : Hash) (now : Time) (id : String) (attemptNo time : Int) : Prop :=
  ∃ release, releaseAt sha256 now id attemptNo = .ok release ∧ time = timeToDB release

theorem completionOutcome_budget {completion : Completion} {retry : RetryPolicy}
    {outcome : JobState × Time}
    (h : completionOutcome sha256 completion retry now = .ok outcome) :
    (outcome.1.terminal = false → completion.attemptNo < retry.maxAttempts) ∧
      (outcome.1 = .deadLetter →
        retry.retryable = false ∨ retry.maxAttempts ≤ completion.attemptNo) ∧
      (outcome.1 = .retrying →
        releaseAt sha256 now completion.jobID completion.attemptNo = .ok outcome.2) := by
  unfold completionOutcome at h
  split at h
  · cases h
    exact ⟨(fun hlive => by cases hlive), JobState.noConfusion, JobState.noConfusion⟩
  · split at h
    · rename_i hretry
      simp only [Bool.and_eq_true, decide_eq_true_eq] at hretry
      cases hrelease : releaseAt sha256 now completion.jobID completion.attemptNo with
      | error error =>
        rw [hrelease] at h
        cases h
      | ok release =>
        rw [hrelease] at h
        cases h
        exact ⟨fun _ => hretry.2, JobState.noConfusion, fun _ => rfl⟩
    · rename_i hspent
      split at h
      · rename_i hretryable
        cases h
        refine ⟨(fun hlive => by cases hlive), fun _ => ?_, JobState.noConfusion⟩
        simp only [hretryable, Bool.true_and, Bool.and_eq_true, decide_eq_true_eq, not_and_or,
          Bool.not_eq_true, not_lt] at hspent
        exact hspent
      · cases h
        exact ⟨(fun hlive => by cases hlive), JobState.noConfusion, JobState.noConfusion⟩

theorem commitCompletion_ok {completion : Completion} {job : JobRow} {attempt : AttemptRow}
    {nextState : JobState} (graph : Graph (yardOf db))
    (hjob : (yardOf db).jobs.get? completion.jobID = some job)
    (hattempt : (yardOf db).attempts.get? (completion.jobID, completion.attemptNo) = some attempt)
    (hdigest : attempt.completionRequestDigest.isNone = true)
    (houtcome : completionOutcome sha256 completion job.retry now = .ok (nextState, availableAt))
    (allows : policy.Allows .complete)
    (backoff : ∀ id attemptNo time, Backoff sha256 now id attemptNo time →
      policy.backoff id attemptNo time)
    (tidy : policy.tidy → nextState.unsuccessful = true → (yardOf db).Clear completion.jobID)
    (h : commitCompletion sha256 completion job nextState availableAt now db = .ok receipt db') :
    ReflTransGen (Step policy) (yardOf db) (yardOf db') := by
  obtain ⟨row, db1, hrow, hguard, hyard1, h⟩ := updateJob_ok h
  obtain ⟨_, db2, hrelease, h⟩ := bind_ok h
  have hyard2 := releaseSlots_ok hrelease
  obtain ⟨_, db3, hcompletion, h⟩ := bind_ok h
  obtain ⟨_, db4, hdead, h⟩ := bind_ok h
  obtain ⟨_, db5, hedit, h⟩ := bind_ok h
  have hyard5 := updateAttempt_ok hedit
  obtain ⟨_, db6, hevent, h⟩ := bind_ok h
  have hyard6 := addEvent_ok hevent
  obtain ⟨_, db7, hactivate, h⟩ := bind_ok h
  obtain ⟨_, db8, hfail, h⟩ := bind_ok h
  obtain ⟨_, rfl⟩ := pure_ok h
  rw [hjob, Option.some.injEq] at hrow
  subst hrow
  simp only [Bool.and_eq_true, decide_eq_true_eq] at hguard
  obtain ⟨⟨⟨hattemptNo, _⟩, _⟩, hleased⟩ := hguard
  let edit := completedEdit sha256 completion nextState (job.stateVersion + 1) now
  let move : Move := {
    id := completion.jobID
    row := job
    next := { job with
      state := nextState
      stateVersion := job.stateVersion + 1
      availableAt := timeToDB availableAt
      readySeq := 0
      updatedAt := timeToDB now
      terminalAt := nullableTime now nextState.terminal
      failure := reportedFailure completion }
    eventType := if nextState.terminal then .jobCompleted else .retryScheduled
    attempts := (yardOf db).attempts.modify (completion.jobID, job.attemptNo) edit
    readySeq := (yardOf db).readySeq
    outputDigest := completion.outputDigest }
  have hended : move.next.state.terminal = true → move.next.terminalAt = some (timeToDB now) := by
    intro hterminal
    change nullableTime now nextState.terminal = _
    rw [show nextState.terminal = true from hterminal]
    rfl
  have hyard4 := settle_ok move.next completion.outputDigest hended (hattemptNo ▸ hcompletion) hdead
  have hattempts : (yardOf db).attempts.modify (completion.jobID, completion.attemptNo)
      (fun row => if row.completionRequestDigest.isNone then edit row else row) =
      (yardOf db).attempts.modify (completion.jobID, job.attemptNo) edit := by
    rw [hattemptNo]
    apply Table.modify_congr _ hattempt
    rw [if_pos hdigest]
  have outcome : nextState = .succeeded ∨ nextState = .retrying ∨ nextState.unsuccessful = true :=
    completionOutcome_cases houtcome
  have hidle : nextState.leased = false := by
    rcases outcome with rfl | rfl | hfailed
    · rfl
    · rfl
    · exact leased_of_unsuccessful hfailed
  have haway : nextState ≠ .pending := by
    rcases outcome with rfl | rfl | hfailed
    · decide
    · decide
    · rintro rfl
      cases hfailed
  have hbudget : move.Budget policy := by
    obtain ⟨hleft, hspent, hrelease⟩ := completionOutcome_budget houtcome
    rw [← hattemptNo] at hleft hspent hrelease
    refine ⟨fun _ _ hlive _ => hleft hlive, fun _ => hspent, fun hreaped => ?_, fun hretrying =>
      backoff _ _ _ ⟨_, hrelease hretrying, rfl⟩⟩
    change (if nextState.terminal then EventType.jobCompleted else .retryScheduled) = _ at hreaped
    split at hreaped <;> cases hreaped
  have hedge : policy.edges move.id move.eventType move.row.state move.next.state := by
    change policy.edges _ (if nextState.terminal then .jobCompleted else .retryScheduled)
      job.state nextState
    split
    · rename_i hterminal
      exact allows _ _ _ _ (.completed _ hleased hterminal)
    · rename_i halive
      rcases outcome with rfl | rfl | hfailed
      · exact (halive rfl).elim
      · exact allows _ _ _ _ (.retried _ hleased)
      · exact (halive (JobState.terminal_iff.mpr (.inr hfailed))).elim
  have hvalid : move.Valid policy (yardOf db) :=
    closing_valid hjob hleased
      ⟨⟨rfl, rfl, rfl, rfl⟩, ⟨rfl, rfl⟩, rfl, hidle, fun hterminal => by rw [hended hterminal]; rfl⟩
      (by
        change EventType.ofMove (if nextState.terminal then .jobCompleted else .retryScheduled) = true
        split <;> rfl)
      (by
        change (if nextState.terminal then EventType.jobCompleted else .retryScheduled) ≠ _
        split <;> exact EventType.noConfusion)
      (.dropped haway rfl rfl) hbudget hedge
      (completedEdit_closes completion nextState (job.stateVersion + 1)) rfl
  have hdelta : move.delta = -job.slotCost := closing_delta hleased hidle
  have happly : yardOf db6 = move.apply (yardOf db) := by
    unfold Move.apply
    rw [hdelta, hyard6, hyard5, hyard4, hyard2, hyard1]
    dsimp only [move]
    rw [← hattempts]
    rfl
  by_cases hfailed : nextState.unsuccessful = true
  · -- A failure is propagated; nothing is activated.
    have hunsuccessful : nextState ≠ .succeeded := by
      rintro rfl
      cases hfailed
    rcases onlyIf_ok hactivate with ⟨hsucceeded, _⟩ | ⟨_, rfl⟩
    · exact (hunsuccessful hsucceeded).elim
    · rcases onlyIf_ok hfail with ⟨_, hfail⟩ | ⟨hspared, _⟩
      · exact .single (fail_step (allows.buries rfl) hvalid hidle happly
          (fun hpolicy => tidy hpolicy hfailed) hfail)
      · exact (hspared hfailed).elim
  · have hstep : Step policy (yardOf db) (yardOf db6) := by
      rw [happly]
      exact Move.step hvalid (Bool.eq_false_iff.mpr hfailed)
    rcases onlyIf_ok hfail with ⟨hfail, _⟩ | ⟨_, rfl⟩
    · exact (hfailed hfail).elim
    · rcases onlyIf_ok hactivate with ⟨_, hactivate⟩ | ⟨_, rfl⟩
      · have hgraph : Graph (yardOf db6) := preserved Graph.micro hstep.micros graph
        exact .head hstep (activateChildren_ok hgraph allows hactivate)
      · exact .single hstep

theorem applyCompletionTx_ok {completion : Completion} (graph : Graph (yardOf db))
    (allows : policy.Allows .complete)
    (backoff : ∀ id attemptNo time, Backoff sha256 now id attemptNo time →
      policy.backoff id attemptNo time)
    (tidy : policy.tidy → ∀ job outcome, db.jobs.get? completion.jobID = some job →
      job.state.leased = true →
      completionOutcome sha256 completion job.retry now = .ok outcome →
      outcome.1.unsuccessful = true → (yardOf db).Clear completion.jobID)
    (h : applyCompletionTx sha256 completion now db = .ok receipt db') :
    ReflTransGen (Step policy) (yardOf db) (yardOf db') := by
  rcases applyCompletionTx_cases sha256 completion now db with
    ⟨_, hsame⟩ | ⟨_, herror⟩ | ⟨attempt, job, outcome, husable, hdigest, _, hleased, houtcome, hcommit⟩
  · rw [hsame] at h
    cases h
    exact .refl
  · rw [herror] at h
    cases h
  · rw [hcommit] at h
    exact commitCompletion_ok graph husable.current husable.found hdigest houtcome allows backoff
      (fun hpolicy => tidy hpolicy job outcome husable.current hleased houtcome) h

def NotStale (error : Error) : Prop := Error.is .staleLease error = false

theorem failsWith_releaseSlots : FailsWith NotStale (releaseSlots tenantID queue slotCost now) :=
  .bind (.update tenantLimits _ _ _) fun _ => .bind (.require rfl) fun _ =>
    .bind (.update queueState _ _ _) fun _ => .require rfl

theorem failsWith_insertCanonicalCompletion {failure : Option Failure} : FailsWith NotStale
      (insertCanonicalCompletion jobID state stateVersion attemptNo outputDigest failure now) :=
  .bind (.require (by rfl)) fun _ => .insert (by rfl)

theorem failsWith_insertDeadLetter {failure : Option Failure} :
    FailsWith NotStale (insertDeadLetter jobID failure now) := by
  cases failure with
  | none => exact .throw (by rfl)
  | some failure => exact .insert (by rfl)

theorem failsWith_nextReadySeq : FailsWith NotStale nextReadySeq :=
  .bind (.mutate _) fun _ => .query _

theorem failsWith_activateChildren : FailsWith NotStale (activateChildren parentID now) :=
  .bind (.query _) fun _ => .forM fun _ _ =>
    .bind failsWith_nextReadySeq fun _ => .bind (.update jobs _ _ _) fun _ =>
      .bind (.require rfl) fun _ => .mutate _

theorem failsWith_failDescendants : FailsWith NotStale (failDescendants parentID now) :=
  .bind (.query _) fun _ => .forM fun _ _ =>
    .bind (.onlyIf failsWith_releaseSlots) fun _ => .bind (.update jobs _ _ _) fun _ =>
      .bind (.require rfl) fun _ => .bind failsWith_insertCanonicalCompletion fun _ =>
        .bind failsWith_insertDeadLetter fun _ => .mutate _

/-- The first statement of a commit is guarded by the version, and everything
behind it fails with other errors. -/
theorem commitCompletion_stale
    (h : commitCompletion sha256 completion job nextState availableAt now db = .error error db')
    (hstale : Error.is .staleLease error = true) : db' = db := by
  rcases bind_error h with hupdate | ⟨affected, db1, hupdate, h⟩
  · exact (update_error hupdate).elim
  · rcases bind_error h with hrequire | ⟨_, db2, hrequire, h⟩
    · obtain ⟨hmissed, _, rfl⟩ := require_error hrequire
      rcases update_ok hupdate with ⟨haffected, _⟩ | ⟨_, _, rfl⟩
      · exact (hmissed haffected).elim
      · rfl
    · have hother : NotStale error := by
        refine FailsWith.bind failsWith_releaseSlots (fun _ =>
          .bind (.onlyIf failsWith_insertCanonicalCompletion) fun _ =>
          .bind (.onlyIf failsWith_insertDeadLetter) fun _ =>
          .bind (.update attempts _ _ _) fun _ => .bind (.mutate _) fun _ =>
          .bind (.onlyIf failsWith_activateChildren) fun _ =>
          .bind (.onlyIf failsWith_failDescendants) fun _ => .pure _) db2 error db' h
      unfold NotStale at hother
      rw [hother] at hstale
      cases hstale

theorem applyCompletionTx_stale (h : applyCompletionTx sha256 completion now db = .error error db')
    (hstale : Error.is .staleLease error = true) : db' = db := by
  rcases applyCompletionTx_cases sha256 completion now db with
    ⟨_, hsame⟩ | ⟨_, herror⟩ | ⟨_, _, _, _, _, _, _, _, hcommit⟩
  · rw [hsame] at h
    cases h
  · rw [herror] at h
    cases h
    rfl
  · rw [hcommit] at h
    exact commitCompletion_stale h hstale

theorem completeBatch_ok {completions : List Completion} (quiet : ¬policy.granting)
    (coherent : Coherent (yardOf db)) (allows : policy.Allows .complete)
    (backoff : ∀ id attemptNo time, Backoff sha256 now id attemptNo time →
      policy.backoff id attemptNo time)
    (tidy : policy.tidy → ∀ completion ∈ completions, ∀ job outcome,
      db.jobs.get? completion.jobID = some job → job.state.leased = true →
      completionOutcome sha256 completion job.retry now = .ok outcome →
      outcome.1.unsuccessful = true → (yardOf db).Clear completion.jobID)
    (h : completeBatch sha256 completions now db = .ok results db') :
    ReflTransGen (Step policy) (yardOf db) (yardOf db') := by
  refine batchTx_ok ?_ (fun _ _ _ _ _ => applyCompletionTx_stale) .refl h
  intro completion hmem before after receipt hreached hitem
  have hmicros := micros_of_steps hreached
  refine applyCompletionTx_ok (coherent.micros hmicros).graph allows backoff ?_ hitem
  intro hpolicy job outcome hjob hleased houtcome hfailed
  refine .micros coherent.graph quiet hmicros fun row hrow => ?_
  -- The job held its lease when the batch began, and its retry policy is fixed.
  obtain ⟨held, hheld, hheldLeased⟩ := leased_of_micros quiet hmicros hjob hleased
  rw [hrow, Option.some.injEq] at hheld
  subst hheld
  obtain ⟨later, hlater, hrelation⟩ := (evolves_of_micros hmicros).jobs _ row hrow
  rw [show (yardOf before).jobs.get? completion.jobID = some job from hjob, Option.some.injEq]
    at hlater
  rw [hlater, hrelation.identity.retry] at houtcome
  exact tidy hpolicy completion hmem row outcome hrow hheldLeased houtcome hfailed

end RailYard.Refinement
