import RailYard.Refinement.Reaping
import RailYard.Refinement.Workflow
import RailYard.Refinement.Frames

/-! Operator control as moves, and redrive and retry as admissions that leave a
note with the job they repeat. -/
namespace RailYard.Refinement
open Library Library.Transaction Domain Store
open Lifecycle Relation

structure Proper (command : JobControlCommand) : Prop where
  releases : command.release = true → command.nextState = .pending
  released : command.release = true → command.receiptAction = "release"
  unsuccessful : command.nextState ≠ .succeeded
  named : command.nextState.terminal = true ∨ command.release = true →
    EventType.ofMove (.operator command.receiptAction) = true

theorem proper_cancel (command : OperatorCommand) : Proper (cancelCommand command) :=
  ⟨fun h => (by cases h), fun h => (by cases h), fun h => (by cases h), fun _ => (by rfl)⟩

theorem proper_force (command : OperatorCommand) (action : ForceAction) :
    Proper (forceCommand command action) := by
  cases action with
  | release => exact ⟨fun _ => rfl, fun _ => rfl, fun h => (by cases h), fun _ => (by rfl)⟩
  | fail =>
    exact ⟨fun h => (by cases h), fun h => (by cases h), fun h => (by cases h), fun _ => (by rfl)⟩
  | deadLetter =>
    exact ⟨fun h => (by cases h), fun h => (by cases h), fun h => (by cases h), fun _ => (by rfl)⟩
  | other name unknown =>
    refine ⟨fun h => (by cases h), fun h => (by cases h), fun h => (by cases h), fun h => ?_⟩
    rcases h with h | h <;> cases h

def controlledEdit (command : JobControlCommand) (now : Time) (attempt : AttemptRow) : AttemptRow :=
  { attempt with
    state := .expired
    completedAt := some (timeToDB now)
    failure :=
      some (attempt.failure.getD (operatorFailure command.receiptAction command.reason)) }

theorem controlledEdit_closes (command : JobControlCommand) (now : Time) :
    Closes (controlledEdit command now) :=
  ⟨fun _ => rfl, fun _ => ⟨rfl, rfl, rfl⟩⟩

/-- The attempts of a yard after the lease of a controlled job was closed, if it
held one. -/
def controlledAttempts (yard : Yard) (command : JobControlCommand) (job : JobRow) (now : Time) :
    Table (String × Int) AttemptRow :=
  if job.state.leased then
    yard.attempts.modify (command.jobID, job.attemptNo) (controlledEdit command now)
  else yard.attempts

theorem fence_ok {command : JobControlCommand} (fences : Fences (yardOf db))
    (hjob : (yardOf db).jobs.get? command.jobID = some job)
    (h : onlyIf (job.state.leased = true) (fenceControlled command job now) db = .ok () db') :
    yardOf db' = { yardOf db with
      attempts := controlledAttempts (yardOf db) command job now }.shift
        job.tenantID job.queueName (-slots job) := by
  unfold controlledAttempts
  rcases onlyIf_ok h with ⟨hleased, h⟩ | ⟨hidle, rfl⟩
  · obtain ⟨_, db1, hupdate, h⟩ := bind_ok h
    have hyard1 := updateAttempt_ok hupdate
    obtain ⟨_, h⟩ := require_bind h
    obtain ⟨attempt, hattempt, hopen, _⟩ := fences.openAttempt hjob hleased
    have hattempts : (yardOf db).attempts.modify (command.jobID, job.attemptNo)
        (fun row => if row.state.isOpen then controlledEdit command now row else row) =
        (yardOf db).attempts.modify (command.jobID, job.attemptNo)
          (controlledEdit command now) := by
      apply Table.modify_congr _ hattempt
      rw [if_pos hopen]
    rw [if_pos hleased, slots_of_leased hleased, releaseSlots_ok h, hyard1, ← hattempts]
    rfl
  · rw [if_neg hidle, slots_of_unleased (Bool.eq_false_iff.mpr hidle), neg_zero, Yard.shift_zero]

theorem controlled_kind {yard : Yard} {move : Move} {command : JobControlCommand}
    (hid : move.id = command.jobID)
    (hattempts : move.attempts = controlledAttempts yard command move.row now)
    (target : move.next.state = .pending ∨ move.next.state.unsuccessful = true)
    (same : SameLease move.row move.next)
    (gate : policy.gated → move.next.state = .pending → yard.ParentsSucceeded move.id) :
    move.Kind policy yard := by
  unfold controlledAttempts at hattempts
  by_cases hleased : move.row.state.leased = true
  · rw [if_pos hleased, ← hid] at hattempts
    have hclosed := controlledEdit_closes command now
    refine .close _ hleased ?_ same hclosed.closes hclosed.keeps hattempts
    rcases target with target | target
    · rw [target]
      rfl
    · exact leased_of_unsuccessful target
  · rw [if_neg hleased] at hattempts
    exact .override (Bool.eq_false_iff.mpr hleased) target gate same hattempts

def controlledRow (command : JobControlCommand) (job : JobRow) (readySeq : Int) (now : Time) :
    JobRow :=
  { job with
    state := command.nextState
    stateVersion := job.stateVersion + 1
    availableAt := timeToDB now
    readySeq := readySeq
    recoveryPending := command.release && job.state.leased
    updatedAt := timeToDB now
    terminalAt := nullableTime now (!command.release)
    failure := command.failure }

def controlMove (yard : Yard) (command : JobControlCommand) (job : JobRow)
    (readySeq counter : Int) (now : Time) : Move where
  id := command.jobID
  row := job
  next := controlledRow command job readySeq now
  eventType := .operator command.receiptAction
  attempts := controlledAttempts yard command job now
  readySeq := counter

section Control

variable {command : JobControlCommand}

theorem controlMove_delta
    (target : command.nextState = .pending ∨ command.nextState.unsuccessful = true) :
    (controlMove yard command job readySeq counter now).delta = -slots job := by
  unfold Move.delta
  rw [slots_of_unleased, zero_sub]
  · rfl
  · rcases target with target | target
    · change command.nextState.leased = false
      rw [target]
      rfl
    · exact leased_of_unsuccessful target

theorem controlJob_begin (fences : Fences (yardOf db))
    (hjob : (yardOf db).jobs.get? command.jobID = some job)
    (h : controlJob command job now db = .ok () db') :
    ∃ db1 db2 db3 db4 db5 seq,
      yardOf db1 = { yardOf db with
        attempts := controlledAttempts (yardOf db) command job now }.shift
          job.tenantID job.queueName (-slots job) ∧
      readySeqIf command.release db1 = .ok seq db2 ∧
      yardOf db3 = { yardOf db2 with
        jobs := (yardOf db).jobs.modify command.jobID fun _ =>
          controlledRow command job seq now } ∧
      onlyIf (command.release = false) (do
        insertCanonicalCompletion command.jobID command.nextState (job.stateVersion + 1)
          job.attemptNo "" command.failure now
        onlyIf (command.nextState = .deadLetter)
          (insertDeadLetter command.jobID command.failure now)) db3 = .ok () db4 ∧
      yardOf db5 = { yardOf db4 with
        history := record (yardOf db4).history command.jobID (.operator command.receiptAction)
          command.nextState (job.stateVersion + 1) } ∧
      onlyIf (command.release = false) (failDescendants command.jobID now) db5 = .ok () db' := by
  obtain ⟨_, db1, hfence, h⟩ := bind_ok h
  have hyard1 := fence_ok fences hjob hfence
  obtain ⟨seq, db2, hseq, h⟩ := bind_ok h
  have hjobs : (yardOf db2).jobs = (yardOf db).jobs := by
    rw [(readySeqIf_ok hseq).1, hyard1]
    rfl
  obtain ⟨row, db3, hrow, _, hyard3, h⟩ := updateJob_ok h
  obtain ⟨_, db4, hsettle, h⟩ := bind_ok h
  obtain ⟨_, db5, hevent, h⟩ := bind_ok h
  rw [hjobs, hjob, Option.some.injEq] at hrow
  subst hrow
  rw [hjobs] at hyard3
  exact ⟨db1, db2, db3, db4, db5, seq, hyard1, hseq, hyard3, hsettle, addEvent_ok hevent, h⟩

theorem unsuccessful_of_terminal {state : JobState} (hterminal : state.terminal = true)
    (hne : state ≠ .succeeded) : state.unsuccessful = true := by
  cases state <;> first | rfl | exact absurd hterminal (by decide) | exact (hne rfl).elim

section Live

variable {policy : Policy} (proper : Proper command) (fences : Fences (yardOf db))
  (allows : policy.Allows (.control command.jobID command.receiptAction command.nextState))
  (hjob : (yardOf db).jobs.get? command.jobID = some job) (alive : job.state.terminal = false)
include proper fences allows hjob alive

theorem releaseControl_ok (release : command.release = true)
    (gate : policy.gated → (yardOf db).ParentsSucceeded command.jobID)
    (h : controlJob command job now db = .ok () db') : Step policy (yardOf db) (yardOf db') := by
  obtain ⟨db1, db2, db3, db4, db5, seq, hyard1, hseq, hyard3, hsettle, hyard5, hfail⟩ :=
    controlJob_begin fences hjob h
  have hpending := proper.releases release
  unfold readySeqIf at hseq
  rw [if_pos release] at hseq
  obtain ⟨rfl, hyard2⟩ := nextReadySeq_ok hseq
  have hkeep : command.release ≠ false := by
    rw [release]
    decide
  rcases onlyIf_ok hsettle with ⟨hfalse, _⟩ | ⟨_, rfl⟩
  · exact (hkeep hfalse).elim
  rcases onlyIf_ok hfail with ⟨hfalse, _⟩ | ⟨_, rfl⟩
  · exact (hkeep hfalse).elim
  let counter := (yardOf db).readySeq + 1
  have hcounter : (yardOf db1).readySeq + 1 = counter := by
    rw [hyard1]
    rfl
  let move := controlMove (yardOf db) command job counter counter now
  have hvalid : move.Valid policy (yardOf db) := {
    found := hjob
    alive := alive
    identity := ⟨rfl, rfl, rfl, rfl⟩
    version := rfl
    ended := by
      intro hended
      rw [show move.next.state = .pending from hpending] at hended
      cases hended
    event := proper.named (.inr release)
    released := fun hreleased => by cases hreleased
    punctual := fun _ _ hother =>
      (hother (congrArg EventType.operator (proper.released release))).elim
    readiness := .drawn hpending rfl rfl
    budget := .other EventType.noConfusion EventType.noConfusion
      (by
        change command.nextState ≠ .retrying
        rw [hpending]
        decide)
      fun _ _ _ hother => (hother (congrArg EventType.operator (proper.released release))).elim
    edge := allows _ _ _ _ (.controlled _ _ alive (.inl ⟨hpending, proper.released release⟩))
    kind := controlled_kind rfl rfl (.inl hpending) ⟨rfl, rfl⟩ fun hpolicy _ => gate hpolicy }
  have hdelta : move.delta = -slots job := controlMove_delta (.inl hpending)
  have happly : move.apply (yardOf db) = yardOf db5 := by
    rw [Move.apply_of_alive _ (by rw [show move.next.state = .pending from hpending]; rfl), hdelta,
      hyard5, hyard3, hcounter, hyard2, hcounter, hyard1]
    rfl
  rw [← happly]
  exact Move.step hvalid (by rw [show move.next.state = .pending from hpending]; rfl)

theorem endControl_ok (release : command.release = false)
    (tidy : policy.tidy → command.nextState.unsuccessful = true →
      (yardOf db).Clear command.jobID)
    (h : controlJob command job now db = .ok () db') : Step policy (yardOf db) (yardOf db') := by
  obtain ⟨db1, db2, db3, db4, db5, seq, hyard1, hseq, hyard3, hsettle, hyard5, hfail⟩ :=
    controlJob_begin fences hjob h
  unfold readySeqIf at hseq
  rw [if_neg (by rw [release]; decide)] at hseq
  obtain ⟨rfl, rfl⟩ := pure_ok hseq
  rcases onlyIf_ok hsettle with ⟨_, hsettle⟩ | ⟨hkept, _⟩
  · rcases onlyIf_ok hfail with ⟨_, hfail⟩ | ⟨hkept, _⟩
    · obtain ⟨_, middle, hcompletion, hdead⟩ := bind_ok hsettle
      -- The ledger accepts terminal states only.
      obtain ⟨hterminal, _⟩ := insertCanonicalCompletion_ok hcompletion
      have hfailed := unsuccessful_of_terminal hterminal proper.unsuccessful
      let move := controlMove (yardOf db) command job 0 (yardOf db).readySeq now
      have hended : move.next.terminalAt = some (timeToDB now) := by
        change nullableTime now (!command.release) = _
        rw [release]
        rfl
      have hyard4 := settle_ok move.next "" (fun _ => hended)
        (show onlyIf (command.nextState.terminal = true) _ db3 = .ok () middle by
          unfold onlyIf
          rw [if_pos hterminal]
          exact hcompletion) hdead
      have hvalid : move.Valid policy (yardOf db) := {
        found := hjob
        alive := alive
        identity := ⟨rfl, rfl, rfl, rfl⟩
        version := rfl
        ended := fun _ => by rw [hended]; rfl
        event := proper.named (.inl hterminal)
        released := fun hreleased => by cases hreleased
        punctual := fun _ hlive => by
          rw [show move.next.state.terminal = true from hterminal] at hlive
          cases hlive
        readiness := .dropped (by
          intro hpending
          rw [show command.nextState = .pending from hpending] at hfailed
          cases hfailed) rfl rfl
        budget := .other EventType.noConfusion EventType.noConfusion
          (by
            intro hretrying
            rw [show command.nextState = .retrying from hretrying] at hfailed
            cases hfailed)
          fun _ _ hlive => by
            rw [show move.next.state.terminal = true from hterminal] at hlive
            cases hlive
        edge := allows _ _ _ _ (.controlled _ _ alive (.inr hfailed))
        kind := controlled_kind rfl rfl (.inr hfailed) ⟨rfl, rfl⟩ (by
          intro _ hpending
          rw [show command.nextState = .pending from hpending] at hfailed
          cases hfailed) }
      have hdelta : move.delta = -slots job := controlMove_delta (.inr hfailed)
      have happly : yardOf db5 = move.apply (yardOf db) := by
        unfold Move.apply
        rw [hdelta, hyard5, hyard4, hyard3, hyard1]
        rfl
      exact fail_step (allows.buries hfailed) hvalid (leased_of_unsuccessful hfailed) happly
        (fun hpolicy => tidy hpolicy hfailed) hfail
    · exact (hkept release).elim
  · exact (hkept release).elim

end Live

theorem applyJobControl_ok (proper : Proper command) (fences : Fences (yardOf db))
    (allows : policy.Allows (.control command.jobID command.receiptAction command.nextState))
    (gate : policy.gated → command.release = true →
      (yardOf db).ParentsSucceeded command.jobID)
    (tidy : policy.tidy → command.nextState.unsuccessful = true → ∀ job,
      (yardOf db).jobs.get? command.jobID = some job → job.state.terminal = false →
      (yardOf db).Clear command.jobID) (h : applyJobControl sha256 command now db = .ok receipt db')
    :
    ReflTransGen (Step policy) (yardOf db) (yardOf db') := by
  obtain ⟨job, hjob, h⟩ := found_bind h rfl
  rcases readControlAction_bind h with ⟨_, _, h⟩ | ⟨_, h⟩
  · obtain ⟨_, rfl⟩ := pure_ok h
    exact .refl
  · obtain ⟨halive, h⟩ := require_bind h
    obtain ⟨_, controlled, hcontrol, h⟩ := bind_ok h
    obtain ⟨_, _, hrecord⟩ := bind_pure_ok h
    rw [yard_insertControlAction hrecord]
    cases hrelease : command.release with
    | true =>
      exact .single (releaseControl_ok proper fences allows hjob halive hrelease
        (fun hpolicy => gate hpolicy hrelease) hcontrol)
    | false =>
      exact .single (endControl_ok proper fences allows hjob halive hrelease
        (fun hpolicy hfailed => tidy hpolicy hfailed job hjob halive) hcontrol)

end Control

theorem cloneJob_ok (policy : Policy)
    (copied : ∃ id row, (yardOf db).jobs.get? id = some row ∧ original.retry = row.retry)
    (h : cloneJob options original entropy now db = .ok created db') :
    ReflTransGen (Step policy) (yardOf db) (yardOf db') := by
  obtain ⟨_, db1, hadmission, h⟩ := bind_ok h
  obtain ⟨_, db2, hqueue, h⟩ := bind_ok h
  obtain ⟨tenants, slots, hyard2, htenant, hslot, hroom, hsteps⟩ :=
    prepare_ok policy hadmission hqueue
  obtain ⟨seq, db3, hseq, h⟩ := bind_ok h
  obtain ⟨rfl, hyard3⟩ := nextReadySeq_ok hseq
  obtain ⟨_, db4, hinsert, h⟩ := bind_ok h
  obtain ⟨hcost, hfresh, hyard4⟩ := insertJob_ok hinsert
  obtain ⟨_, db5, hevent, h⟩ := bind_ok h
  have hyard5 := addEvent_ok hevent
  obtain ⟨rfl, rfl⟩ := pure_ok h
  refine hsteps.trans ?_
  let job := newJob (newID entropy) {
    tenantID := original.tenantID
    queue := original.queue
    priority := original.priority
    slotCost := original.slotCost
    payload := original.payload
    retry := original.retry } now ((yardOf db2).readySeq + 1) now
  rw [hyard3] at hfresh
  have hvalid : (singleBatch job.id (Job.toRow job) [] ((yardOf db2).readySeq + 1)).Valid
      (yardOf db2) :=
    singleBatch_valid hfresh
      ⟨.inl rfl, fun hstate => (by cases hstate), rfl, rfl, rfl, hcost,
        .inr (by rw [hyard2]; exact copied), by rw [hyard2]; exact htenant, by rw [hyard2]; exact hslot,
        .inr ⟨rfl, Int.lt_succ _, le_refl _⟩⟩
      (Int.lt_succ _).le (by rw [hyard2]; exact hroom) (fun _ hmem => by cases hmem)
      (fun _ hmem => by cases hmem) (fun _ _ hmem => by cases hmem)
  have hstep : Step policy (yardOf db2) _ := admit_step hvalid
  rw [singleBatch_apply_alive rfl] at hstep
  rw [hyard5, hyard4, hyard3]
  exact .single hstep

theorem yard_linkRedriven (h : linkRedriven jobID createdID db = .ok () db') :
    yardOf db' = yardOf db := by
  obtain ⟨_, _, hupdate, h⟩ := bind_ok h
  obtain ⟨_, rfl⟩ := require_ok h
  rcases update_ok hupdate with ⟨_, _, _, _, rfl⟩ | ⟨_, _, rfl⟩
  · apply Yard.ext <;> try rfl
    funext id
    change ((db.deadLetters.modify jobID _).get? id).isSome = (db.deadLetters.get? id).isSome
    rw [Table.get?_modify]
    by_cases hid : id = jobID
    · rw [if_pos hid, Option.isSome_map, hid]
    · rw [if_neg hid]
  · rfl

theorem yard_reworded (h : ∀ event, Reworded event (change event)) (db : Database) :
    yardOf { db with events := db.events.map change } = yardOf db := by
  apply Yard.ext <;> try rfl
  change (db.events.map change).map entry = db.events.map entry
  rw [List.map_map]
  refine List.map_congr_left fun event _ => ?_
  obtain ⟨_, _, heq⟩ := h event
  rw [Function.comp_apply, heq]
  rfl

theorem yard_attributeAdmission (h : attributeAdmission jobID actor db = .ok () db') :
    yardOf db' = yardOf db :=
  Preserves.ok (relates_attributeAdmission (fun db _ h => yard_reworded h db) _ _) h

theorem yard_normalizePayloads (h : normalizePayloads jobID db = .ok () db') :
    yardOf db' = yardOf db :=
  Preserves.ok (relates_normalizePayloads (fun db _ h => yard_reworded h db) _) h

theorem clone_noted {start : Database} {id : String} (policy : Policy)
    (hrow : start.jobs.get? id = some row) (hterminal : row.state.terminal = true)
    (haction : action = "redrive" ∨ action = "retry")
    (hclone : cloneJob options (scanJob id row) entropy now start = .ok created cloned)
    (hlinked : yardOf linked = yardOf cloned)
    (hnote : addEvent storage id (.operator action) row.state row.stateVersion now payload linked =
      .ok () db) (hafter : yardOf db' = yardOf db) :
    ReflTransGen (Step policy) (yardOf start) (yardOf db') := by
  have hsteps := cloneJob_ok policy ⟨_, row, hrow, rfl⟩ hclone
  have hkept := (evolves_of_micros (micros_of_steps hsteps)).terminal hrow hterminal
  rw [← hlinked] at hsteps hkept
  rw [hafter]
  refine hsteps.tail ?_
  rw [addEvent_ok hnote]
  exact Micro.step_of_jobs (.note _ row action hkept haction hterminal) rfl

theorem terminal_of_deadLetter {id : String} (ledger : Ledger (yardOf db))
    (hrow : db.jobs.get? id = some row) (hletter : db.deadLetters.get? id = some letter) :
    row.state = .deadLetter := by
  apply (ledger.accounted id row hrow).deadLetter.mp
  change (db.deadLetters.get? id).isSome = true
  rw [hletter]
  rfl

theorem redriveDeadLetterControl_ok {command : OperatorCommand} (policy : Policy)
    (ledger : Ledger (yardOf db))
    (h : redriveDeadLetterControl sha256 options command entropy now db = .ok result db') :
    ReflTransGen (Step policy) (yardOf db) (yardOf db') := by
  obtain ⟨letter, hletter, h⟩ := found_bind h rfl
  obtain ⟨row, hfound, h⟩ := found_bind h rfl
  have hdead := terminal_of_deadLetter ledger hfound hletter
  rcases readControlAction_bind h with ⟨_, _, h⟩ | ⟨_, h⟩
  · obtain ⟨_, rfl⟩ := pure_ok h
    exact .refl
  · obtain ⟨_, h⟩ := require_bind h
    obtain ⟨created, _, hclone, h⟩ := bind_ok h
    obtain ⟨_, _, hlink, h⟩ := bind_ok h
    obtain ⟨_, _, hnote, h⟩ := bind_ok h
    obtain ⟨_, _, hrecord⟩ := bind_pure_ok h
    rw [← hdead] at hnote
    exact clone_noted policy hfound (deadLetter_terminal hdead) (.inl rfl) hclone
      (yard_linkRedriven hlink) hnote (yard_insertControlAction hrecord)

theorem retryJobControl_ok {command : OperatorCommand} (policy : Policy)
    (h : retryJobControl sha256 options command entropy now db = .ok result db') :
    ReflTransGen (Step policy) (yardOf db) (yardOf db') := by
  obtain ⟨row, hfound, h⟩ := found_bind h rfl
  rcases readControlAction_bind h with ⟨_, _, h⟩ | ⟨_, h⟩
  · obtain ⟨_, rfl⟩ := pure_ok h
    exact .refl
  · obtain ⟨hterminal, h⟩ := require_bind h
    obtain ⟨created, _, hclone, h⟩ := bind_ok h
    obtain ⟨_, _, hnote, h⟩ := bind_ok h
    obtain ⟨_, _, hrecord⟩ := bind_pure_ok h
    exact clone_noted policy hfound hterminal (.inr rfl) hclone rfl hnote
      (yard_insertControlAction hrecord)

theorem redriveDeadLetter_ok (policy : Policy) (ledger : Ledger (yardOf db))
    (h : redriveDeadLetter sha256 options jobID idempotencyKey requestDigest actor entropy now db =
      .ok result db') : ReflTransGen (Step policy) (yardOf db) (yardOf db') := by
  obtain ⟨row, hfound, h⟩ := found_bind h rfl
  obtain ⟨letter, hletter, h⟩ := found_bind h rfl
  have hterminal := deadLetter_terminal (terminal_of_deadLetter ledger hfound hletter)
  rcases readControlAction_bind h with ⟨_, _, h⟩ | ⟨_, h⟩
  · obtain ⟨_, rfl⟩ := pure_ok h
    exact .refl
  · obtain ⟨_, h⟩ := require_bind h
    obtain ⟨created, _, hclone, h⟩ := bind_ok h
    obtain ⟨_, _, hadmission, h⟩ := bind_ok h
    obtain ⟨_, _, hlink, h⟩ := bind_ok h
    obtain ⟨_, _, hnote, h⟩ := bind_ok h
    obtain ⟨_, _, hnormalize, h⟩ := bind_ok h
    obtain ⟨_, _, hrecord⟩ := bind_pure_ok h
    exact clone_noted policy hfound hterminal (.inl rfl) hclone
      ((yard_linkRedriven hlink).trans (yard_attributeAdmission hadmission)) hnote
      ((yard_insertControlAction hrecord).trans (yard_normalizePayloads hnormalize))

end RailYard.Refinement
