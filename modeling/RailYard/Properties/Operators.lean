import RailYard.Refinement.Commands
import RailYard.Properties.Submissions

/-! Requests of operators and their audit. A request that was carried out is
answered from its record for ever, every request has one audit event, and what
an operator does to a job is audited in the same transaction. The reverse does
not hold: a free-form note may carry any name. -/
namespace RailYard.Properties
open Library Library.Transaction Domain Store
open Refinement Lifecycle

variable {env : Env} {options : Options} {now : Time} {db db' : Database}

inductive Target where
  | jobs (tenantID : String)
  | dags (tenantID : String)
  | control (tenantID action : String)
  | note (tenantID action : String)
  | cancel (jobID : String)
  | force (jobID action : String)
  | retry (jobID : String)
  | redriveControl (jobID : String)
  | redrive (jobID : String)
  deriving DecidableEq

structure Identity where
  target : Target
  key : String
  digest : String
  deriving DecidableEq

def identityOf : Op → Option Identity
  | .submitJobOperation submission _ => some ⟨.jobs submission.job.normalize.tenantID,
      submission.idempotencyKey, submission.requestDigest⟩
  | .submitDagOperation _ submission _ => some ⟨.dags (tenantOrDefault submission.tenantID),
      submission.idempotencyKey, submission.requestDigest⟩
  | .recordControlAction request => some ⟨.control (tenantOrDefault request.tenantID)
      request.action, request.idempotencyKey, request.requestDigest⟩
  | .recordOperatorAction request => some ⟨.note (tenantOrDefault request.tenantID)
      request.action, request.idempotencyKey, request.requestDigest⟩
  | .cancelJob command => some ⟨.cancel command.jobID, command.idempotencyKey,
      command.requestDigest⟩
  | .forceJobAction command action => some ⟨.force command.jobID action.text,
      command.idempotencyKey, command.requestDigest⟩
  | .retryJobControl command _ => some ⟨.retry command.jobID, command.idempotencyKey,
      command.requestDigest⟩
  | .redriveDeadLetterControl command _ => some ⟨.redriveControl command.jobID,
      command.idempotencyKey, command.requestDigest⟩
  | .redriveDeadLetter jobID idempotencyKey requestDigest _ _ => some ⟨.redrive jobID,
      idempotencyKey, requestDigest⟩
  | _ => none

namespace Identity

def command (db : Database) (identity : Identity) : Option Command :=
  match identity.target with
  | .jobs tenantID => some ⟨tenantID, "job.submit", identity.key, identity.digest⟩
  | .dags tenantID => some ⟨tenantID, "dag.submit", identity.key, identity.digest⟩
  | .control tenantID action | .note tenantID action =>
    some ⟨tenantID, action, identity.key, identity.digest⟩
  | .cancel jobID => onJob db jobID "job.cancel" identity.key identity.digest
  | .force jobID action => onJob db jobID ("job.force." ++ action) identity.key identity.digest
  | .retry jobID => onJob db jobID "job.retry" identity.key identity.digest
  | .redriveControl jobID | .redrive jobID =>
    onDeadLetter db jobID redriveAction identity.key identity.digest

def check (identity : Identity) : Except Error Unit :=
  match identity.target with
  | .jobs _ | .dags _ => validateIdempotency identity.key identity.digest
  | _ => .ok ()

def replay (identity : Identity) (response : Response) : Reply :=
  match identity.target with
  | .dags _ => .dag response.toDag.1 response.toDag.2 true
  | .control .. => .recorded true
  | .note .. => .audit response.toEvent true
  | .cancel _ | .force .. => .receipt { response.toReceipt with duplicate := true }
  | _ => .job response.toJob true

theorem command_evolves {identity : Identity} {command : Command}
    (h : Evolves (yardOf db) (yardOf db')) (hcommand : identity.command db = some command) :
    identity.command db' = some command := by
  have hjob : ∀ {jobID action key digest}, onJob db jobID action key digest = some command →
      onJob db' jobID action key digest = some command := by
    intro jobID action key digest honJob
    obtain ⟨job, hjob, rfl⟩ := onJob_eq_some honJob
    obtain ⟨job', hjob', hlater⟩ := h.jobs jobID job hjob
    unfold onJob
    rw [show db'.jobs.get? jobID = some job' from hjob', Option.map_some, hlater.identity.tenantID]
  have hletter : ∀ {jobID action key digest},
      onDeadLetter db jobID action key digest = some command →
      onDeadLetter db' jobID action key digest = some command := by
    intro jobID action key digest honLetter
    unfold onDeadLetter at honLetter ⊢
    split at honLetter
    · rename_i hsome
      have hlater : (db'.deadLetters.get? jobID).isSome = true := h.deadLetters jobID hsome
      rw [if_pos hlater]
      exact hjob honLetter
    · cases honLetter
  obtain ⟨target, key, digest⟩ := identity
  cases target with
  | jobs | dags | control | note => exact hcommand
  | cancel | force | retry => exact hjob hcommand
  | redriveControl | redrive => exact hletter hcommand

end Identity

theorem identity_spec (db : Database) (h : identityOf op = some identity) :
    commandOf db op = identity.command db ∧ keyCheck op = identity.check ∧
      replayOf op = identity.replay ∧ area op = .controls := by
  cases op <;> cases h <;> exact ⟨rfl, rfl, rfl, rfl⟩

theorem step_of_control (h : area call.op = .controls) : step env store call =
      store.perform call.reading fun now => call.op.program env store.options now := by
  obtain ⟨op, reading⟩ := call
  cases op <;> first | rfl | cases h

def auditsOf (db : Database) (scope : String × String × String) : List (String × AuditRow) :=
  db.auditEvents.rows.filter fun entry => AuditRow.scope entry.2 = scope

/-- Every request has exactly one audit event, and every audit event a request. -/
structure OneToOne (db : Database) : Prop where
  audited : ∀ scope row, db.operationRequests.get? scope = some row →
    (auditsOf db scope).length = 1
  requested : ∀ entry ∈ db.auditEvents.rows,
    (db.operationRequests.get? (AuditRow.scope entry.2)).isSome = true

theorem OneToOne.of_trail (h : OneToOne db) (htrail : trail db' = trail db) : OneToOne db' := by
  have hrequests : db'.operationRequests = db.operationRequests := congrArg Trail.requests htrail
  have haudits : db'.auditEvents = db.auditEvents := congrArg Trail.audits htrail
  constructor
  · unfold auditsOf
    rw [hrequests, haudits]
    exact h.audited
  · rw [hrequests, haudits]
    exact h.requested

theorem OneToOne.add (h : OneToOne db) (fresh : recording.Fresh (trail db))
    (hadd : trail db' = (trail db).add recording) :
    OneToOne db' := by
  have hrequests : db'.operationRequests =
      db.operationRequests.insert recording.scope recording.request :=
    congrArg Trail.requests hadd
  have hrows : db'.auditEvents.rows =
      db.auditEvents.rows ++ [(recording.auditID, recording.audit)] := by
    rw [show db'.auditEvents = db.auditEvents.insert recording.auditID recording.audit from
      congrArg Trail.audits hadd]
    exact Table.rows_insert _ _ fresh.auditID
  have hnew : db.operationRequests.get? recording.scope = none := fresh.request
  have hself : auditsOf db recording.scope = [] := by
    unfold auditsOf
    rw [List.filter_eq_nil_iff]
    intro entry hentry
    simpa using fresh.audit entry hentry
  constructor
  · intro scope row hrow
    unfold auditsOf at hself ⊢
    rw [hrows, List.filter_append]
    by_cases hscope : scope = recording.scope
    · rw [hscope, hself]
      simp [recording.sameScope]
    · rw [hrequests, Table.get?_insert_ne _ _ hscope] at hrow
      have hother : AuditRow.scope recording.audit ≠ scope := by
        rw [recording.sameScope]
        exact Ne.symm hscope
      simpa [hother, auditsOf] using h.audited scope row hrow
  · intro entry hentry
    rw [hrows] at hentry
    rw [hrequests]
    rcases List.mem_append.mp hentry with hold | hadded
    · obtain ⟨row, hrow⟩ := Option.isSome_iff_exists.mp (h.requested entry hold)
      rw [Table.get?_insert_of_get? _ _ _ hrow]
      rfl
    · rw [List.mem_singleton.mp hadded, recording.sameScope, Table.get?_insert_self _ _ hnew]
      rfl

theorem oneToOne_empty : OneToOne .empty where
  audited := fun _ _ h => by cases h
  requested := fun _ h => by cases h

theorem oneToOne_step (h : OneToOne store.db) (call : Call) :
    OneToOne (step env store call).2.db := by
  rcases trail_step env store call with hsame | ⟨_, _, _, _, _, _, heffect⟩
  · exact h.of_trail hsame
  · exact h.add heffect.carried.fresh heffect.carried.added

theorem oneToOne_run (env : Env) (options : Options) (activities : List Activity) :
    OneToOne (run env (freshStore options) activities).db :=
  run_related (fun db db' => OneToOne db → OneToOne db') (fun _ h => h)
    (fun h h' honeToOne => h' (h honeToOne)) (fun _ call h => oneToOne_step h call)
    (freshStore options) activities oneToOne_empty

/-- A new event of an operator comes with exactly one audit event, which has the
same job for its target. -/
def Audited (db db' : Database) : Prop :=
  operatorEvents db' = operatorEvents db ∨ ∃ event id audit,
    operatorEvents db' = operatorEvents db ++ [event] ∧
    db'.auditEvents.rows = db.auditEvents.rows ++ [(id, audit)] ∧ audit.targetID = event.jobID

theorem audited_step (env : Env) (store : StoreState) (call : Call) :
    Audited store.db (step env store call).2.db := by
  rcases trail_step env store call with hsame | ⟨_, _, action, event, _, _, heffect⟩
  · exact .inl (congrArg Trail.events hsame)
  · obtain ⟨htells, hfresh, hadded⟩ := heffect.carried
    have hevents := congrArg Trail.events hadded
    cases event with
    | none => exact .inl (hevents.trans (List.append_nil _))
    | some event =>
      have hrows := (congrArg (fun trail => Table.rows (Trail.audits trail)) hadded).trans
        (Table.rows_insert _ _ hfresh.auditID)
      exact .inr ⟨event, _, _, hevents, hrows, (htells event rfl).jobID.symm⟩

theorem requests_step (env : Env) (store : StoreState) (call : Call)
    (scope : String × String × String) (row : OperationRow)
    (h : store.db.operationRequests.get? scope = some row) :
    (step env store call).2.db.operationRequests.get? scope = some row := by
  rcases trail_step env store call with hsame | ⟨_, _, _, _, _, _, heffect⟩
  · rw [show (step env store call).2.db.operationRequests = store.db.operationRequests from
      congrArg Trail.requests hsame]
    exact h
  · rw [show (step env store call).2.db.operationRequests = _ from
      congrArg Trail.requests heffect.carried.added]
    exact Table.get?_insert_of_get? _ _ _ h

theorem requests_run (activities : List Activity)
    (h : store.db.operationRequests.get? scope = some row) :
    (run env store activities).db.operationRequests.get? scope = some row :=
  run_related (fun db db' => db.operationRequests.get? scope = some row →
      db'.operationRequests.get? scope = some row)
    (fun _ hrow => hrow) (fun h h' hrow => h' (h hrow))
    (fun store call hrow => requests_step env store call scope row hrow) store activities h

theorem recorded_step (hidentity : identityOf call.op = some identity)
    (hreply : (step env store call).1 = .ok reply) :
    identity.check = .ok () ∧ ∃ command row, identity.command store.db = some command ∧
      (step env store call).2.db.operationRequests.get? command.scope = some row ∧
      row.requestDigest = command.digest ∧ identity.replay row.response = repeated reply := by
  obtain ⟨hcommand, hcheck, hreplay, harea⟩ := identity_spec store.db hidentity
  rw [step_of_control harea] at hreply ⊢
  unfold StoreState.perform at hreply ⊢
  dsimp only at hreply ⊢
  unfold commit at hreply ⊢
  cases hrun : call.op.program env store.options (store.clock.writeTime call.reading) store.db with
  | error error db' =>
    rw [hrun] at hreply
    cases hreply
  | ok value db' =>
    rw [hrun] at hreply
    cases hreply
    rw [← hcheck, ← hcommand, ← hreplay]
    refine ⟨keyCheck_ok hrun, ?_⟩
    cases hop : commandOf store.db call.op with
    | none =>
      obtain ⟨error, _, herror⟩ := command_missing env store.options
        (store.clock.writeTime call.reading) harea hop
      cases herror.symm.trans hrun
    | some command =>
      obtain ⟨row, hrow⟩ := command_answers hop hrun
      exact ⟨command, row, rfl, hrow⟩

theorem step_recorded (env : Env) {command : Command}
    (hcommand : commandOf store.db call.op = some command)
    (hrow : store.db.operationRequests.get? command.scope = some row) :
    (step env store call).1 = (keyCheck call.op >>= fun _ =>
      answerFrom row command.digest (replayOf call.op row.response)) ∧
      (step env store call).2.db = store.db := by
  have harea : area call.op = .controls := by
    cases hop : call.op <;> rw [hop] at hcommand <;> first | rfl | cases hcommand
  rw [step_of_control harea]
  unfold StoreState.perform
  dsimp only
  rw [commit_settled (command_found hcommand hrow)]
  exact ⟨rfl, rfl⟩

theorem step_missing (env : Env) (harea : area call.op = .controls)
    (hcommand : commandOf store.db call.op = none) :
    (∃ error, Error.is .notFound error = true ∧ (step env store call).1 = .error error) ∧
      (step env store call).2.db = store.db := by
  obtain ⟨error, hnotFound, hrun⟩ := command_missing env store.options
    (store.clock.writeTime call.reading) harea hcommand
  have hsettled : call.op.program env store.options (store.clock.writeTime call.reading) store.db =
      settled store.db (.error error) := hrun
  rw [step_of_control harea]
  unfold StoreState.perform
  dsimp only
  rw [commit_settled hsettled]
  exact ⟨⟨error, hnotFound, rfl⟩, rfl⟩

/-- What a call with another digest is told: a conflict, unless it is a submission whose
key or digest is blank. -/
def digestRefusal : Op → Error
  | .submitJobOperation submission _ | .submitDagOperation _ submission _ =>
    if blank submission.idempotencyKey then .text "idempotency key must not be empty"
    else if blank submission.requestDigest then .text "request digest must not be empty"
    else .idempotencyConflict
  | _ => .idempotencyConflict

theorem keyCheck_conflict (op : Op) :
    (keyCheck op >>= fun _ => (.error .idempotencyConflict : Except Error Reply)) =
      .error (digestRefusal op) := by
  cases op with
  | submitJobOperation | submitDagOperation =>
    simp only [keyCheck, validateIdempotency, digestRefusal]
    split_ifs <;> rfl
  | _ => rfl

/-- How a call is answered in a state where a request was carried out. -/
structure Answered (env : Env) (store : StoreState) (identity : Identity) (reply : Reply)
    (call : Call) : Prop where
  repetition : identityOf call.op = some identity →
    (step env store call).1 = .ok (repeated reply) ∧ (step env store call).2.db = store.db
  otherDigest : ∀ command command', identity.command store.db = some command →
    commandOf store.db call.op = some command' → command'.scope = command.scope →
    command'.digest ≠ command.digest →
    (step env store call).1 = .error (digestRefusal call.op) ∧
      (step env store call).2.db = store.db
  noTarget : area call.op = .controls → commandOf store.db call.op = none →
    (∃ error, Error.is .notFound error = true ∧ (step env store call).1 = .error error) ∧
    (step env store call).2.db = store.db

theorem answered_run {store : StoreState} {first : Call} (sound : Sound (yardOf store.db))
    (hidentity : identityOf first.op = some identity)
    (hreply : (step env store first).1 = .ok reply) (later : List Activity) (call : Call) :
    Answered env (run env (step env store first).2 later) identity reply call := by
  obtain ⟨hcheck, command, row, hcommand, hrow, hdigest, hreplay⟩ :=
    recorded_step hidentity hreply
  generalize hlast : run env (step env store first).2 later = last
  have hevolves : Evolves (yardOf store.db) (yardOf last.db) := by
    rw [← hlast]
    exact evolves_of_micros (micros_of_steps (steps_run sound (.call first :: later)))
  have hkept : last.db.operationRequests.get? command.scope = some row := by
    rw [← hlast]
    exact requests_run later hrow
  have hstill := Identity.command_evolves hevolves hcommand
  constructor
  · intro hrepeats
    obtain ⟨hagain, hcheck', hreplay', _⟩ := identity_spec _ hrepeats
    obtain ⟨hanswer, hsame⟩ := step_recorded env (hagain.trans hstill) hkept
    refine ⟨?_, hsame⟩
    rw [hanswer, hcheck', hcheck, hreplay', hreplay]
    exact if_pos hdigest
  · intro original other horiginal hother hscope hne
    obtain rfl := Option.some.inj (hstill.symm.trans horiginal)
    rw [← hscope] at hkept
    obtain ⟨hanswer, hsame⟩ := step_recorded env hother hkept
    refine ⟨?_, hsame⟩
    have hconflict : answerFrom row other.digest (replayOf call.op row.response) =
        .error .idempotencyConflict := if_neg fun heq => hne (heq.symm.trans hdigest)
    rw [hanswer, hconflict, keyCheck_conflict]
  · exact step_missing env

/-- In every reachable state requests and audit events correspond one to one,
whatever a call then does to a job as an operator is audited with it, and every
request carried out before is settled: a repetition gets its answer, a call with
another digest an error, and neither changes a table. -/
theorem operator_requests (env : Env) (options : Options) (activities : List Activity)
    (call : Call) :
    let store := run env (freshStore options) activities
    OneToOne store.db ∧ Audited store.db (step env store call).2.db ∧
      ∀ before first later identity reply, activities = before ++ .call first :: later →
        identityOf first.op = some identity →
        (step env (run env (freshStore options) before) first).1 = .ok reply →
        Answered env store identity reply call := by
  intro store
  refine ⟨oneToOne_run env options activities, audited_step env store call, ?_⟩
  rintro before first later identity reply rfl hidentity hreply
  have hstore : store =
      run env (step env (run env (freshStore options) before) first).2 later := run_append ..
  rw [hstore]
  exact answered_run (sound_run env options before) hidentity hreply later call

def cancelPlain (byte : UInt8) : Call :=
  ⟨.cancelJob {
    jobID := newID (entropyOf byte)
    actor := "operator"
    idempotencyKey := "cancel"
    requestDigest := "digest" }, ⟨1, 0⟩⟩

theorem operator_requests_cancel :
    ∃ reply, (step plainEnv (run plainEnv (freshStore defaultOptions) [plainJob 1 []])
        (cancelPlain 1)).1 = .ok reply ∧
      (step plainEnv (run plainEnv (freshStore defaultOptions)
        [plainJob 1 [], .call (cancelPlain 1)]) (cancelPlain 1)).1 = .ok (repeated reply) := by
  obtain ⟨reply, hreply⟩ : ∃ reply, (step plainEnv (run plainEnv (freshStore defaultOptions)
      [plainJob 1 []]) (cancelPlain 1)).1 = .ok reply := ⟨_, rfl⟩
  have hall := operator_requests plainEnv defaultOptions [plainJob 1 [], .call (cancelPlain 1)]
    (cancelPlain 1)
  have hanswered := hall.2.2 [plainJob 1 []] (cancelPlain 1) [] _ reply rfl rfl hreply
  exact ⟨reply, hreply, (hanswered.repetition rfl).1⟩

def submitPlain (digest : String) : Call :=
  ⟨.submitJobOperation {
    job := { payload := { type := .noop } }
    actor := "operator"
    idempotencyKey := "submit"
    requestDigest := digest } (entropyOf 1), ⟨1, 0⟩⟩

/-- A submission without a digest is refused as such under a key that is taken. -/
theorem blank_digest_refused :
    (step plainEnv (freshStore defaultOptions) (submitPlain "digest")).1.isOk = true ∧
      refusal (step plainEnv (run plainEnv (freshStore defaultOptions)
        [.call (submitPlain "digest")]) (submitPlain "")).1 =
        some (.text "request digest must not be empty") := by
  decide +kernel

section Authenticity

def mutationAudits (db : Database) : List AuditRow :=
  (db.auditEvents.rows.map Prod.snd).filter fun audit => audit.action ∈ mutationActions

/-- The audit events and the events in the histories of jobs, each in order of
commit, match one by one. -/
def Authentic (db : Database) : Prop :=
  List.Forall₂ Matches (mutationAudits db) (operatorEvents db)

def GrowsAuthentic (db db' : Database) : Prop :=
  ∃ audits events, mutationAudits db' = mutationAudits db ++ audits ∧
    operatorEvents db' = operatorEvents db ++ events ∧ audits.length ≤ 1 ∧
    List.Forall₂ Matches audits events

def Honest : Activity → Prop
  | .call ⟨.recordControlAction request, _⟩ | .call ⟨.recordOperatorAction request, _⟩ =>
    request.action ∉ mutationActions
  | _ => True

theorem GrowsAuthentic.of_trail (h : trail db' = trail db) : GrowsAuthentic db db' := by
  have haudits : db'.auditEvents = db.auditEvents := congrArg Trail.audits h
  refine ⟨[], [], ?_, (congrArg Trail.events h).trans (List.append_nil _).symm, Nat.zero_le 1, .nil⟩
  unfold mutationAudits
  rw [haudits, List.append_nil]

theorem Authentic.grow (h : Authentic db) (hgrows : GrowsAuthentic db db') : Authentic db' := by
  obtain ⟨audits, events, haudits, hevents, _, hmatches⟩ := hgrows
  unfold Authentic
  rw [haudits, hevents]
  exact List.rel_append h hmatches

theorem honest_named {command : Command} (honest : Honest (.call call))
    (heffect : Effect env.sha256 call.op command reply action event db db')
    (hcommand : commandOf db call.op = some command) :
    event.isSome = true ↔ action.action ∈ mutationActions := by
  have hname : action.action = command.action :=
    congrArg (fun scope => scope.2.1) heffect.scope
  cases hop : isRecording call.op with
  | false => exact heffect.named hop
  | true =>
    rw [heffect.quiet hop, hname]
    obtain ⟨op, reading⟩ := call
    cases op <;> cases hop
    all_goals
      cases hcommand
      change _ ∉ _ at honest
      simpa using honest

theorem growsAuthentic_step (honest : Honest (.call call)) :
    GrowsAuthentic store.db (step env store call).2.db := by
  rcases trail_step env store call with hsame | ⟨command, _, action, event, hcommand, _, heffect⟩
  · exact .of_trail hsame
  · have hnamed := honest_named honest heffect hcommand
    obtain ⟨htells, hfresh, hadded⟩ := heffect.carried
    have hevents := congrArg Trail.events hadded
    have hrows := (congrArg (fun trail => Table.rows (Trail.audits trail)) hadded).trans
      (Table.rows_insert _ _ hfresh.auditID)
    have haudits : mutationAudits (step env store call).2.db = mutationAudits store.db ++
        [(recordingOf env.sha256 action event htells).audit].filter
          fun audit => audit.action ∈ mutationActions := by
      unfold mutationAudits
      rw [show (step env store call).2.db.auditEvents.rows = _ from hrows, List.map_append,
        List.filter_append]
      rfl
    refine ⟨_, _, haudits, hevents, List.length_filter_le _ _, ?_⟩
    cases event with
    | none =>
      have hother : action.action ∉ mutationActions := by simpa using hnamed
      have hfilter : decide ((recordingOf env.sha256 action none htells).audit.action ∈
          mutationActions) = false := decide_eq_false hother
      rw [List.filter_singleton, hfilter]
      exact .nil
    | some event =>
      have hmember : action.action ∈ mutationActions := hnamed.mp rfl
      have hfilter : decide ((recordingOf env.sha256 action (some event) htells).audit.action ∈
          mutationActions) = true := decide_eq_true hmember
      rw [List.filter_singleton, hfilter]
      exact .cons ((recordingOf env.sha256 action (some event) htells).sameStory event rfl) .nil

theorem authentic_run (honest : ∀ activity ∈ activities, Honest activity) (h : Authentic store.db) :
    Authentic (run env store activities).db := by
  induction activities generalizing store with
  | nil => exact h
  | cons activity rest ih =>
    rw [List.forall_mem_cons] at honest
    refine ih honest.2 ?_
    by_cases hcall : ∃ call, activity = .call call
    · obtain ⟨call, rfl⟩ := hcall
      exact h.grow (growsAuthentic_step honest.1)
    · exact h.grow (.of_trail (trail_loops fun call heq => hcall ⟨call, heq⟩))

/-- In every state that is reached without a forged note, and over every next
call that forges none, the audit events of changes and the events of operators
match one by one. -/
theorem audit_authenticity (env : Env) (options : Options) (activities : List Activity)
    (call : Call) (honest : ∀ activity ∈ activities, Honest activity)
    (honestCall : Honest (.call call)) :
    let store := run env (freshStore options) activities
    Authentic store.db ∧ GrowsAuthentic store.db (step env store call).2.db :=
  ⟨authentic_run honest .nil, growsAuthentic_step honestCall⟩

theorem audit_authenticity_cancel :
    (∀ activity ∈ [plainJob 1 [], .call (cancelPlain 1)], Honest activity) ∧
      Authentic (run plainEnv (freshStore defaultOptions)
        [plainJob 1 [], .call (cancelPlain 1)]).db := by
  have hhonest : ∀ activity ∈ [plainJob 1 [], .call (cancelPlain 1)], Honest activity := by
    intro activity hactivity
    simp only [List.mem_cons, List.not_mem_nil, or_false] at hactivity
    rcases hactivity with rfl | rfl <;> trivial
  exact ⟨hhonest, (audit_authenticity plainEnv defaultOptions
    [plainJob 1 [], .call (cancelPlain 1)] (cancelPlain 1) hhonest trivial).1⟩

def forgedCancel : Call :=
  ⟨.recordOperatorAction {
    tenantID := "default"
    idempotencyKey := "note"
    action := "job.cancel"
    actor := "client"
    requestDigest := "digest"
    committedAt := 1
    targetType := "job"
    targetID := newID (entropyOf 1)
    details := [] }, ⟨1, 0⟩⟩

/-- The note becomes an audit event of a change that never happened. -/
theorem forged_audit_event : ¬Authentic (run plainEnv (freshStore defaultOptions)
    [plainJob 1 [], .call forgedCancel]).db := by
  intro hauthentic
  have hlength := hauthentic.length_eq
  revert hlength
  decide +kernel

end Authenticity

end RailYard.Properties
