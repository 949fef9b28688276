import RailYard.Refinement.Trail

/-! The calls of operators. Each is identified by tenant, action, key and
digest, where the tenant of a call on a job is the job's; a call that finds its
record answers from it, and one that is carried out adds to the trail. -/
namespace RailYard.Refinement
open Library Library.Transaction Domain Store

variable {α : Type}
structure Command where
  tenantID : String
  action : String
  key : String
  digest : String
  deriving DecidableEq

def Command.scope (command : Command) : String × String × String :=
  (command.tenantID, command.action, command.key)

def onJob (db : Database) (jobID action key digest : String) : Option Command :=
  (db.jobs.get? jobID).map fun job => ⟨job.tenantID, action, key, digest⟩

def onDeadLetter (db : Database) (jobID action key digest : String) : Option Command :=
  if (db.deadLetters.get? jobID).isSome then onJob db jobID action key digest else none

def commandOf (db : Database) : Op → Option Command
  | .submitJobOperation submission _ => some ⟨submission.job.normalize.tenantID, "job.submit",
      submission.idempotencyKey, submission.requestDigest⟩
  | .submitDagOperation _ submission _ => some ⟨tenantOrDefault submission.tenantID, "dag.submit",
      submission.idempotencyKey, submission.requestDigest⟩
  | .recordControlAction request | .recordOperatorAction request =>
    some ⟨tenantOrDefault request.tenantID, request.action, request.idempotencyKey,
      request.requestDigest⟩
  | .cancelJob command =>
    onJob db command.jobID "job.cancel" command.idempotencyKey command.requestDigest
  | .forceJobAction command action =>
    onJob db command.jobID ("job.force." ++ action.text) command.idempotencyKey
      command.requestDigest
  | .retryJobControl command _ =>
    onJob db command.jobID "job.retry" command.idempotencyKey command.requestDigest
  | .redriveDeadLetterControl command _ =>
    onDeadLetter db command.jobID redriveAction command.idempotencyKey command.requestDigest
  | .redriveDeadLetter jobID idempotencyKey requestDigest _ _ =>
    onDeadLetter db jobID redriveAction idempotencyKey requestDigest
  | _ => none

def keyCheck : Op → Except Error Unit
  | .submitJobOperation submission _ =>
    validateIdempotency submission.idempotencyKey submission.requestDigest
  | .submitDagOperation _ submission _ =>
    validateIdempotency submission.idempotencyKey submission.requestDigest
  | _ => .ok ()

def replayOf : Op → Response → Reply
  | .submitDagOperation .., response => .dag response.toDag.1 response.toDag.2 true
  | .recordControlAction _, _ => .recorded true
  | .recordOperatorAction _, response => .audit response.toEvent true
  | .cancelJob _, response => .receipt { response.toReceipt with duplicate := true }
  | .forceJobAction .., response => .receipt { response.toReceipt with duplicate := true }
  | _, response => .job response.toJob true

theorem onJob_eq_some {command : Command} (h : onJob db jobID action key digest = some command) :
    ∃ job, db.jobs.get? jobID = some job ∧ command = ⟨job.tenantID, action, key, digest⟩ := by
  obtain ⟨job, hjob, heq⟩ := Option.map_eq_some_iff.mp h
  exact ⟨job, hjob, heq.symm⟩

theorem onDeadLetter_eq_some {command : Command}
    (h : onDeadLetter db jobID action key digest = some command) :
    ∃ deadLetter job, db.deadLetters.get? jobID = some deadLetter ∧
      db.jobs.get? jobID = some job ∧ command = ⟨job.tenantID, action, key, digest⟩ := by
  unfold onDeadLetter at h
  split at h
  · rename_i hsome
    obtain ⟨deadLetter, hletter⟩ := Option.isSome_iff_exists.mp hsome
    obtain ⟨job, hjob, heq⟩ := onJob_eq_some h
    exact ⟨deadLetter, job, hletter, hjob, heq⟩
  · cases h

section Found

def answerFrom (row : OperationRow) (digest : String) (value : α) : Except Error α :=
  if row.requestDigest = digest then .ok value else .error .idempotencyConflict

theorem readControlAction_found
    (hrow : db.operationRequests.get? (tenantID, action, key) = some row)
    (hnext : next (some row.response) db = .ok value db) :
    (readControlAction tenantID key action digest >>= next) db =
      settled db (answerFrom row digest value) := by
  unfold answerFrom
  by_cases hdigest : row.requestDigest = digest
  · have hread : readControlAction tenantID key action digest db = .ok (some row.response) db :=
      (bind_run (select_found hrow)).trans (bind_run (require_run _ _ hdigest))
    rw [if_pos hdigest]
    exact (bind_run hread).trans hnext
  · have hread : readControlAction tenantID key action digest db =
        .error .idempotencyConflict db :=
      (bind_run (select_found hrow)).trans (bind_run_error (require_run_error _ _ hdigest))
    rw [if_neg hdigest]
    exact bind_run_error hread

theorem map_answerFrom {β : Type} (view : α → β) (row : OperationRow) (digest : String)
    (value : α) : (answerFrom row digest value).map view = answerFrom row digest (view value) := by
  unfold answerFrom
  split <;> rfl

theorem answered {β : Type} {program : Tx α} {row : OperationRow} {digest : String} {value : α}
    (view : α → β) (h : program db = settled db (answerFrom row digest value)) :
    (program >>= fun result => pure (view result)) db =
      settled db (answerFrom row digest (view value)) :=
  (settled_map view h).trans (congrArg (settled db) (map_answerFrom ..))

theorem answered_checked {β : Type} {program : Tx α} {check : Except Error Unit}
    {row : OperationRow} {digest : String} {value : α} (view : α → β)
    (h : program db = settled db (check >>= fun _ => answerFrom row digest value)) :
    (program >>= fun result => pure (view result)) db =
      settled db (check >>= fun _ => answerFrom row digest (view value)) := by
  refine (settled_map view h).trans (congrArg (settled db) ?_)
  cases check with
  | error error => rfl
  | ok _ => exact map_answerFrom ..

theorem applyJobControl_found {command : JobControlCommand}
    (hjob : db.jobs.get? command.jobID = some job)
    (hrow : db.operationRequests.get? (job.tenantID, command.auditAction, command.idempotencyKey) =
      some row) :
    applyJobControl sha256 command now db = settled db (answerFrom row command.requestDigest
      { row.response.toReceipt with duplicate := true }) :=
  (bind_run (select_found hjob)).trans (readControlAction_found hrow rfl)

theorem command_found {command : Command} (hcommand : commandOf db op = some command)
    (hrow : db.operationRequests.get? command.scope = some row) :
    op.program env options now db = settled db (keyCheck op >>= fun _ =>
      answerFrom row command.digest (replayOf op row.response)) := by
  cases op
  all_goals try cases hcommand
  case submitJobOperation submission entropy =>
    have hrun : submitJobOperation env.sha256 options submission entropy now db =
        settled db (validateIdempotency submission.idempotencyKey submission.requestDigest >>=
          fun _ => answerFrom row submission.requestDigest (row.response.toJob, true)) :=
      settled_lift fun _ => readControlAction_found hrow rfl
    exact answered_checked _ hrun
  case submitDagOperation dagID submission entropy =>
    have hrun : submitDagOperation env.sha256 options dagID submission entropy now db =
        settled db (validateIdempotency submission.idempotencyKey submission.requestDigest >>=
          fun _ => answerFrom row submission.requestDigest (row.response.toDag, true)) :=
      settled_lift fun _ => readControlAction_found hrow rfl
    exact answered_checked _ hrun
  case recordControlAction request =>
    exact answered _ (readControlAction_found hrow rfl)
  case recordOperatorAction request =>
    have hrun : recordOperatorAction env.sha256 request now db =
        settled db (answerFrom row request.requestDigest (row.response.toEvent, true)) :=
      readControlAction_found hrow rfl
    exact answered _ hrun
  case cancelJob operator =>
    obtain ⟨job, hjob, rfl⟩ := onJob_eq_some hcommand
    have hcancel : db.jobs.get? (cancelCommand operator).jobID = some job := hjob
    exact answered _ (applyJobControl_found hcancel hrow)
  case forceJobAction operator action =>
    obtain ⟨job, hjob, rfl⟩ := onJob_eq_some hcommand
    have hforce : db.jobs.get? (forceCommand operator action).jobID = some job := hjob
    exact answered _ (applyJobControl_found hforce hrow)
  case retryJobControl operator entropy =>
    obtain ⟨job, hjob, rfl⟩ := onJob_eq_some hcommand
    have hrun : retryJobControl env.sha256 options operator entropy now db =
        settled db (answerFrom row operator.requestDigest (row.response.toJob, true)) :=
      (bind_run (select_found hjob)).trans (readControlAction_found hrow rfl)
    exact answered _ hrun
  case redriveDeadLetterControl operator entropy =>
    obtain ⟨deadLetter, job, hletter, hjob, rfl⟩ := onDeadLetter_eq_some hcommand
    have hrun : redriveDeadLetterControl env.sha256 options operator entropy now db =
        settled db (answerFrom row operator.requestDigest (row.response.toJob, true)) :=
      (bind_run (select_found hletter)).trans
        ((bind_run (select_found hjob)).trans (readControlAction_found hrow rfl))
    exact answered _ hrun
  case redriveDeadLetter jobID key digest actor entropy =>
    obtain ⟨deadLetter, job, hletter, hjob, rfl⟩ := onDeadLetter_eq_some hcommand
    have hrun : redriveDeadLetter env.sha256 options jobID key digest actor entropy now db =
        settled db (answerFrom row digest (row.response.toJob, true)) :=
      (bind_run (select_found hjob)).trans
        ((bind_run (select_found hletter)).trans (readControlAction_found hrow rfl))
    exact answered _ hrun

end Found

theorem command_missing (env : Env) (options : Options) (now : Time) (harea : area op = .controls)
    (hcommand : commandOf db op = none) :
    ∃ error, Error.is .notFound error = true ∧
      op.program env options now db = .error error db := by
  have hjobs : ∀ {jobID action key digest}, onJob db jobID action key digest = none →
      db.jobs.get? jobID = none := fun h => Option.map_eq_none_iff.mp h
  cases op
  all_goals try cases harea
  all_goals try cases hcommand
  case cancelJob operator =>
    exact ⟨_, rfl, bind_run_error (bind_run (select_absent (hjobs hcommand)))⟩
  case forceJobAction operator action =>
    exact ⟨_, rfl, bind_run_error (bind_run (select_absent (hjobs hcommand)))⟩
  case retryJobControl operator entropy =>
    exact ⟨_, rfl, bind_run_error (bind_run (select_absent (hjobs hcommand)))⟩
  case redriveDeadLetterControl operator entropy =>
    change onDeadLetter .. = none at hcommand
    unfold onDeadLetter at hcommand
    cases hletter : db.deadLetters.get? operator.jobID with
    | none => exact ⟨_, rfl, bind_run_error (bind_run (select_absent hletter))⟩
    | some deadLetter =>
      rw [hletter, Option.isSome_some, if_pos rfl] at hcommand
      exact ⟨_, rfl, bind_run_error ((bind_run (select_found hletter)).trans
        (bind_run (select_absent (hjobs hcommand))))⟩
  case redriveDeadLetter jobID key digest actor entropy =>
    change onDeadLetter .. = none at hcommand
    unfold onDeadLetter at hcommand
    cases hjob : db.jobs.get? jobID with
    | none => exact ⟨_, rfl, bind_run_error (bind_run (select_absent hjob))⟩
    | some job =>
      cases hletter : db.deadLetters.get? jobID with
      | none =>
        exact ⟨_, rfl, bind_run_error ((bind_run (select_found hjob)).trans
          (bind_run (select_absent hletter)))⟩
      | some deadLetter =>
        rw [hletter, Option.isSome_some, if_pos rfl, onJob, hjob] at hcommand
        cases hcommand

def mutationActions : List String :=
  ["job.cancel", "job.force.release", "job.force.fail", "job.force.dead_letter", "job.retry",
    "dead_letter.redrive"]

def isRecording : Op → Bool
  | .recordControlAction _ | .recordOperatorAction _ => true
  | _ => false

structure Effect (sha256 : Hash) (op : Op) (command : Command) (reply : Reply)
    (action : ControlAction) (event : Option OperatorEvent) (db db' : Database) : Prop where
  carried : Carried sha256 action event db db'
  scope : (action.tenantID, action.action, action.idempotencyKey) = command.scope
  digest : action.requestDigest = command.digest
  reply : replayOf op action.response = repeated reply
  named : isRecording op = false → (event.isSome = true ↔ action.action ∈ mutationActions)
  quiet : isRecording op = true → event = none

theorem admitJob_tenantID (h : admitJob options storage spec actor entropy now db = .ok job db') :
    job.tenantID = spec.tenantID := by
  iterate 10 obtain ⟨_, _, _, h⟩ := bind_ok h
  obtain ⟨rfl, _⟩ := pure_ok h
  unfold Job.failedUpstream
  split <;> rfl

structure Records (action : ControlAction) (scope : String × String × String) (digest : String)
    (response : Response) : Prop where
  scope : (action.tenantID, action.action, action.idempotencyKey) = scope
  digest : action.requestDigest = digest
  response : action.response = response

theorem submitJobOperation_carried
    (habsent : db.operationRequests.get? (submission.job.normalize.tenantID, "job.submit",
      submission.idempotencyKey) = none)
    (h : submitJobOperation sha256 options submission entropy now db = .ok result db') :
    ∃ action, Carried sha256 action none db db' ∧
      Records action (submission.job.normalize.tenantID, "job.submit", submission.idempotencyKey)
        submission.requestDigest (.submitted result.1) := by
  obtain ⟨_, _, h⟩ := lift_bind h
  replace h := readControlAction_fresh habsent h
  obtain ⟨job, _, hadmit, h⟩ := bind_ok h
  obtain ⟨_, rfl, hinsert⟩ := bind_pure_ok h
  have hquiet := Preserves.ok ((aloof_trail.moves _).admitJob _ _ _ _) hadmit
  refine ⟨_, carried_of_quiet hquiet hinsert, ?_, rfl, rfl⟩
  dsimp only
  rw [admitJob_tenantID hadmit]

theorem submitDagOperation_carried
    (habsent : db.operationRequests.get? (tenantOrDefault submission.tenantID, "dag.submit",
      submission.idempotencyKey) = none)
    (h : submitDagOperation sha256 options dagID submission entropy now db = .ok result db') :
    ∃ action, Carried sha256 action none db db' ∧
      Records action (tenantOrDefault submission.tenantID, "dag.submit",
        submission.idempotencyKey) submission.requestDigest (.dag result.1.1 result.1.2) := by
  obtain ⟨_, _, h⟩ := lift_bind h
  replace h := readControlAction_fresh habsent h
  obtain ⟨jobs, _, hadmit, h⟩ := bind_ok h
  obtain ⟨_, _, hdag, h⟩ := bind_ok h
  obtain ⟨_, _, hnodes, h⟩ := bind_ok h
  obtain ⟨_, rfl, hinsert⟩ := bind_pure_ok h
  have hquiet := Preserves.ok (.forM ((aloof_trail.moves now).insertDagNode dagID)) hnodes
  rw [Preserves.ok ((aloof_trail.moves _).insertDag rfl _) hdag,
    Preserves.ok ((aloof_trail.moves _).admitWorkflow _ _ _ _ _) hadmit] at hquiet
  exact ⟨_, carried_of_quiet hquiet hinsert, rfl, rfl, rfl⟩

theorem controlJob_trail {command : JobControlCommand}
    (h : controlJob command job now db = .ok () db') :
    trail db' = { trail db with events := (trail db).events ++
      [⟨command.jobID, command.receiptAction, some (.text command.actor), timeToDB now⟩] } ∧
      (command.release = true ∨ command.nextState.terminal = true) := by
  obtain ⟨_, db1, hfence, h⟩ := bind_ok h
  have htrail1 := Preserves.ok (.onlyIf (.bind (.update aloof_trail.attempts _ _ _) fun _ =>
    .bind (.require _ _) fun _ => (aloof_trail.moves _).releaseSlots _ _ _)) hfence
  obtain ⟨_, db2, hready, h⟩ := bind_ok h
  have htrail2 := Preserves.ok ((aloof_trail.moves now).readySeqIf _) hready
  obtain ⟨_, db3, hupdate, h⟩ := bind_ok h
  have htrail3 := Preserves.ok (.update aloof_trail.jobs _ _ _) hupdate
  obtain ⟨_, h⟩ := require_bind h
  obtain ⟨_, db4, hcompletion, h⟩ := bind_ok h
  have htrail4 := Preserves.ok (.onlyIf
    (.bind ((aloof_trail.moves _).insertCanonicalCompletion _ _ _ _ _ _) fun _ =>
      .onlyIf ((aloof_trail.moves _).insertDeadLetter _ _))) hcompletion
  obtain ⟨_, db5, hevent, h⟩ := bind_ok h
  have htrail5 := operatorEvent_ok hevent
  have htrail6 := Preserves.ok (.onlyIf ((aloof_trail.moves _).failDescendants _)) h
  refine ⟨?_, ?_⟩
  · rw [htrail6, htrail5, htrail4, htrail3, htrail2, htrail1]
  · rcases onlyIf_ok hcompletion with ⟨_, hrun⟩ | ⟨hrelease, _⟩
    · obtain ⟨_, _, hinsert, _⟩ := bind_ok hrun
      obtain ⟨_, _, hrequire, _⟩ := bind_ok hinsert
      exact .inr (require_ok hrequire).1
    · exact .inl (Bool.eq_true_of_not_eq_false hrelease)

theorem applyJobControl_carried {command : JobControlCommand}
    (hjob : db.jobs.get? command.jobID = some job)
    (habsent : db.operationRequests.get? (job.tenantID, command.auditAction,
      command.idempotencyKey) = none)
    (hname : command.release = true ∨ command.nextState.terminal = true →
      auditAction command.receiptAction = command.auditAction)
    (h : applyJobControl sha256 command now db = .ok receipt db') :
    (command.release = true ∨ command.nextState.terminal = true) ∧ ∃ action event,
      Carried sha256 action (some event) db db' ∧
      Records action (job.tenantID, command.auditAction, command.idempotencyKey)
        command.requestDigest (.receipt receipt) := by
  replace h := select_bind hjob h
  replace h := readControlAction_fresh habsent h
  obtain ⟨_, h⟩ := require_bind h
  obtain ⟨_, _, hcontrol, h⟩ := bind_ok h
  obtain ⟨_, rfl, hinsert⟩ := bind_pure_ok h
  obtain ⟨htrail, hknown⟩ := controlJob_trail hcontrol
  exact ⟨hknown, _, _, carried_of_event ⟨rfl, rfl, rfl, hname hknown⟩ htrail hinsert,
    rfl, rfl, rfl⟩

theorem retryJobControl_carried {command : OperatorCommand}
    (hjob : db.jobs.get? command.jobID = some job)
    (habsent : db.operationRequests.get? (job.tenantID, "job.retry", command.idempotencyKey) = none)
    (h : retryJobControl sha256 options command entropy now db = .ok result db') :
    ∃ action event, Carried sha256 action (some event) db db' ∧
      Records action (job.tenantID, "job.retry", command.idempotencyKey) command.requestDigest
        (.job result.1) := by
  replace h := select_bind hjob h
  replace h := readControlAction_fresh habsent h
  obtain ⟨_, h⟩ := require_bind h
  obtain ⟨created, _, hclone, h⟩ := bind_ok h
  obtain ⟨_, _, hevent, h⟩ := bind_ok h
  obtain ⟨_, rfl, hinsert⟩ := bind_pure_ok h
  have htrail := operatorEvent_ok hevent
  rw [Preserves.ok ((aloof_trail.moves _).cloneJob _ _ _) hclone] at htrail
  exact ⟨_, _, carried_of_event ⟨rfl, rfl, rfl, auditAction_retry⟩ htrail hinsert, rfl, rfl, rfl⟩

theorem redriveDeadLetterControl_carried {command : OperatorCommand}
    (hjob : db.jobs.get? command.jobID = some job)
    (habsent : db.operationRequests.get? (job.tenantID, redriveAction, command.idempotencyKey) =
      none) (h : redriveDeadLetterControl sha256 options command entropy now db = .ok result db') :
    ∃ action event, Carried sha256 action (some event) db db' ∧
      Records action (job.tenantID, redriveAction, command.idempotencyKey) command.requestDigest
        (.redriven result.1) := by
  obtain ⟨letter, _, h⟩ := found_bind h rfl
  replace h := select_bind hjob h
  replace h := readControlAction_fresh habsent h
  obtain ⟨_, h⟩ := require_bind h
  obtain ⟨created, _, hclone, h⟩ := bind_ok h
  obtain ⟨_, _, hlink, h⟩ := bind_ok h
  obtain ⟨_, _, hevent, h⟩ := bind_ok h
  obtain ⟨_, rfl, hinsert⟩ := bind_pure_ok h
  have htrail := operatorEvent_ok hevent
  rw [Preserves.ok (aloof_trail.links.linkRedriven _ _) hlink,
    Preserves.ok ((aloof_trail.moves _).cloneJob _ _ _) hclone] at htrail
  exact ⟨_, _, carried_of_event ⟨rfl, rfl, rfl, auditAction_redrive⟩ htrail hinsert, rfl, rfl, rfl⟩

theorem redriveDeadLetter_carried (hjob : db.jobs.get? jobID = some job)
    (habsent : db.operationRequests.get? (job.tenantID, redriveAction, key) = none)
    (h : redriveDeadLetter sha256 options jobID key digest contextActor entropy now db =
      .ok result db') :
    ∃ action event, Carried sha256 action (some event) db db' ∧
      Records action (job.tenantID, redriveAction, key) digest (.redriven result.1) := by
  replace h := select_bind hjob h
  obtain ⟨letter, _, h⟩ := found_bind h rfl
  replace h := readControlAction_fresh habsent h
  obtain ⟨_, h⟩ := require_bind h
  obtain ⟨created, _, hclone, h⟩ := bind_ok h
  obtain ⟨_, _, hadmission, h⟩ := bind_ok h
  obtain ⟨_, _, hlink, h⟩ := bind_ok h
  obtain ⟨_, _, hevent, h⟩ := bind_ok h
  obtain ⟨_, _, hnormalize, h⟩ := bind_ok h
  obtain ⟨_, rfl, hinsert⟩ := bind_pure_ok h
  have htrail := operatorEvent_ok hevent
  rw [Preserves.ok (aloof_trail.links.linkRedriven _ _) hlink,
    Preserves.ok (preserves_attributeAdmission _ _) hadmission,
    Preserves.ok ((aloof_trail.moves _).cloneJob _ _ _) hclone] at htrail
  rw [← Preserves.ok (preserves_normalizePayloads _) hnormalize] at htrail
  exact ⟨_, _, carried_of_event ⟨rfl, rfl, rfl, auditAction_redrive⟩ htrail hinsert, rfl, rfl, rfl⟩

theorem Records.action_eq {action : ControlAction} {command : Command} {response : Response}
    (records : Records action command.scope command.digest response) :
    action.action = command.action :=
  congrArg (fun scope => scope.2.1) records.scope

theorem Effect.of_records {op : Op} {command : Command} {reply : Reply} {action : ControlAction}
    {event : Option OperatorEvent} {response : Response}
    (carried : Carried sha256 action event db db')
    (records : Records action command.scope command.digest response)
    (hreply : replayOf op response = repeated reply)
    (named : isRecording op = false → (event.isSome = true ↔ command.action ∈ mutationActions))
    (quiet : isRecording op = true → event = none) :
    Effect sha256 op command reply action event db db' where
  carried := carried
  scope := records.scope
  digest := records.digest
  reply := by rwa [records.response]
  named := by rwa [records.action_eq]
  quiet := quiet

theorem redrive_mem : redriveAction ∈ mutationActions := by decide

theorem force_known {action : ForceAction}
    (h : action.releases = true ∨ action.state.terminal = true) :
    action.text ∈ ["release", "fail", "dead_letter"] := by
  cases action with
  | release | fail | deadLetter => decide
  | other name unknown =>
    rcases h with h | h <;> cases h

theorem auditAction_force {text : String} (h : text ∈ ["release", "fail", "dead_letter"]) :
    auditAction text = "job.force." ++ text ∧ "job.force." ++ text ∈ mutationActions := by
  simp only [List.mem_cons, List.not_mem_nil, or_false] at h
  rcases h with rfl | rfl | rfl <;> decide

theorem command_carried {op : Op} {command : Command} {reply : Reply}
    (hcommand : commandOf db op = some command)
    (habsent : db.operationRequests.get? command.scope = none)
    (h : op.program env options now db = .ok reply db') :
    ∃ action event, Effect env.sha256 op command reply action event db db' := by
  cases op
  all_goals try cases hcommand
  case submitJobOperation submission entropy =>
    obtain ⟨result, rfl, hrun⟩ := bind_pure_ok h
    obtain ⟨action, hcarried, hrecords⟩ := submitJobOperation_carried habsent hrun
    exact ⟨action, none, .of_records hcarried hrecords rfl (by simp [mutationActions]) fun _ => rfl⟩
  case submitDagOperation dagID submission entropy =>
    obtain ⟨result, rfl, hrun⟩ := bind_pure_ok h
    obtain ⟨action, hcarried, hrecords⟩ := submitDagOperation_carried habsent hrun
    exact ⟨action, none, .of_records hcarried hrecords rfl (by simp [mutationActions]) fun _ => rfl⟩
  case recordControlAction request =>
    obtain ⟨result, rfl, hrun⟩ := bind_pure_ok h
    obtain ⟨_, _, hinsert⟩ := bind_pure_ok (readControlAction_fresh habsent hrun)
    exact ⟨_, none, .of_records (carried_of_quiet rfl hinsert) ⟨rfl, rfl, rfl⟩ rfl
      nofun fun _ => rfl⟩
  case recordOperatorAction request =>
    obtain ⟨result, rfl, hrun⟩ := bind_pure_ok h
    obtain ⟨_, rfl, hinsert⟩ := bind_pure_ok (readControlAction_fresh habsent hrun)
    exact ⟨_, none, .of_records (carried_of_quiet rfl hinsert) ⟨rfl, rfl, rfl⟩ rfl
      nofun fun _ => rfl⟩
  case cancelJob operator =>
    obtain ⟨job, hjob, rfl⟩ := onJob_eq_some hcommand
    obtain ⟨result, rfl, hrun⟩ := bind_pure_ok h
    obtain ⟨_, action, event, hcarried, hrecords⟩ :=
      applyJobControl_carried hjob habsent (fun _ => auditAction_cancel) hrun
    exact ⟨action, some event, .of_records hcarried hrecords rfl (by simp [mutationActions]) nofun⟩
  case forceJobAction operator forced =>
    obtain ⟨job, hjob, rfl⟩ := onJob_eq_some hcommand
    obtain ⟨result, rfl, hrun⟩ := bind_pure_ok h
    obtain ⟨hknown, action, event, hcarried, hrecords⟩ := applyJobControl_carried hjob habsent
      (fun hknown => (auditAction_force (force_known hknown)).1) hrun
    exact ⟨action, some event, .of_records hcarried hrecords rfl
      (by simp [(auditAction_force (force_known hknown)).2]) nofun⟩
  case retryJobControl operator entropy =>
    obtain ⟨job, hjob, rfl⟩ := onJob_eq_some hcommand
    obtain ⟨result, rfl, hrun⟩ := bind_pure_ok h
    obtain ⟨action, event, hcarried, hrecords⟩ := retryJobControl_carried hjob habsent hrun
    exact ⟨action, some event, .of_records hcarried hrecords rfl (by simp [mutationActions]) nofun⟩
  case redriveDeadLetterControl operator entropy =>
    obtain ⟨_, job, _, hjob, rfl⟩ := onDeadLetter_eq_some hcommand
    obtain ⟨result, rfl, hrun⟩ := bind_pure_ok h
    obtain ⟨action, event, hcarried, hrecords⟩ :=
      redriveDeadLetterControl_carried hjob habsent hrun
    exact ⟨action, some event, .of_records hcarried hrecords rfl (by simp [redrive_mem]) nofun⟩
  case redriveDeadLetter jobID key digest actor entropy =>
    obtain ⟨_, job, _, hjob, rfl⟩ := onDeadLetter_eq_some hcommand
    obtain ⟨result, rfl, hrun⟩ := bind_pure_ok h
    obtain ⟨action, event, hcarried, hrecords⟩ := redriveDeadLetter_carried hjob habsent hrun
    exact ⟨action, some event, .of_records hcarried hrecords rfl (by simp [redrive_mem]) nofun⟩

theorem repeated_replayOf (op : Op) (response : Response) :
    repeated (replayOf op response) = replayOf op response := by
  cases op <;> rfl

theorem keyCheck_ok (h : op.program env options now db = .ok reply db') : keyCheck op = .ok () := by
  cases op
  case submitJobOperation submission entropy =>
    obtain ⟨_, _, h⟩ := bind_pure_ok h
    obtain ⟨_, _, hlift, _⟩ := bind_ok h
    exact (lift_ok hlift).1
  case submitDagOperation dagID submission entropy =>
    obtain ⟨_, _, h⟩ := bind_pure_ok h
    obtain ⟨_, _, hlift, _⟩ := bind_ok h
    exact (lift_ok hlift).1
  all_goals rfl

theorem command_answers {command : Command} (hcommand : commandOf db op = some command)
    (h : op.program env options now db = .ok reply db') :
    ∃ row, db'.operationRequests.get? command.scope = some row ∧
      row.requestDigest = command.digest ∧ replayOf op row.response = repeated reply := by
  cases hrow : db.operationRequests.get? command.scope with
  | none =>
    obtain ⟨action, event, heffect⟩ := command_carried hcommand hrow h
    obtain ⟨htells, hfresh, hadded⟩ := heffect.carried
    have hrequests : db'.operationRequests = db.operationRequests.insert _ _ :=
      congrArg Trail.requests hadded
    refine ⟨(recordingOf env.sha256 action event htells).request, ?_, heffect.digest,
      heffect.reply⟩
    rw [hrequests, ← heffect.scope]
    exact Table.get?_insert_self _ _ hfresh.request
  | some row =>
    have hsettled := (command_found hcommand hrow).symm.trans h
    cases hanswer : (keyCheck op >>= fun _ =>
        answerFrom row command.digest (replayOf op row.response)) with
    | error error =>
      rw [hanswer] at hsettled
      cases hsettled
    | ok value =>
      rw [hanswer] at hsettled
      cases hsettled
      obtain ⟨_, _, hanswer⟩ := except_bind_ok hanswer
      unfold answerFrom at hanswer
      split at hanswer
      · rename_i hdigest
        cases hanswer
        exact ⟨row, hrow, hdigest, (repeated_replayOf _ _).symm⟩
      · cases hanswer

section Steps

theorem outside_trail (h : area op ≠ .controls) : Outside trail (area op) := by
  cases hop : area op with
  | controls => exact (h hop).elim
  | _ =>
    dsimp only [Outside, Deaf]
    repeat' constructor
    all_goals intros; rfl

theorem trail_step (env : Env) (store : StoreState) (call : Call) :
    trail (step env store call).2.db = trail store.db ∨
      ∃ command reply action event, commandOf store.db call.op = some command ∧
        (step env store call).1 = .ok reply ∧
        Effect env.sha256 call.op command reply action event store.db
          (step env store call).2.db := by
  by_cases harea : area call.op = .controls
  · rcases step_cases env store call with hsame | ⟨now, reply, _, hreply, hrun⟩
    · exact .inl (congrArg trail hsame)
    cases hcommand : commandOf store.db call.op with
    | none =>
      obtain ⟨error, _, herror⟩ := command_missing env store.options now harea hcommand
      cases herror.symm.trans hrun
    | some command =>
      cases hrow : store.db.operationRequests.get? command.scope with
      | none =>
        obtain ⟨action, event, heffect⟩ := command_carried hcommand hrow hrun
        exact .inr ⟨command, reply, action, event, rfl, hreply, heffect⟩
      | some row =>
        refine .inl (congrArg trail ?_)
        have hsettled := (command_found hcommand hrow).symm.trans hrun
        cases hanswer : (keyCheck call.op >>= fun _ =>
            answerFrom row command.digest (replayOf call.op row.response)) with
        | error error =>
          rw [hanswer] at hsettled
          cases hsettled
        | ok value =>
          rw [hanswer] at hsettled
          exact (EStateM.Result.ok.inj hsettled).2.symm
  · exact .inl (step_preserves aloof_trail (outside_trail harea))

theorem trail_triggered (h : triggered call.op = true) :
    trail (step env store call).2.db = trail store.db := by
  refine step_preserves aloof_trail (outside_trail ?_)
  cases hop : call.op <;> rw [hop] at h <;> first | (intro harea; cases harea; done) | cases h

theorem trail_loops (h : ∀ call, activity ≠ .call call) :
    trail (advance env store activity).db = trail store.db :=
  loops_kept (fun _ _ => trail_triggered) h

end Steps

end RailYard.Refinement
