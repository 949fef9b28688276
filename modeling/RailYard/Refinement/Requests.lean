import RailYard.Refinement.Areas

/-! Submissions under a key. The first successful call stores its answer under
the tenant and the key, no call changes a stored answer, and a call that finds
one writes nothing. -/
namespace RailYard.Refinement
open Library Library.Transaction Domain Store

variable {α β : Type}

structure Request where
  tenantID : String
  key : String
  kind : RequestKind
  digest : String
  deriving DecidableEq

def requestOf : Op → Option Request
  | .submitJob submission _ => some ⟨submission.job.normalize.tenantID, submission.idempotencyKey,
      .job, submission.requestDigest⟩
  | .submitWorkflow submission _ => some ⟨tenantOrDefault submission.tenantID,
      submission.idempotencyKey, .workflow, submission.requestDigest⟩
  | .createCronTrigger submission _ => some ⟨tenantOrDefault submission.tenantID,
      submission.idempotencyKey, .cron, submission.requestDigest⟩
  | _ => none

def cronJob (submission : CronSubmission) : JobSpec :=
  ({ submission.job with tenantID := tenantOrDefault submission.tenantID } : JobSpec).normalize

/-- What a submission is checked for before its key is looked up; jobs and
workflows are checked afterwards. -/
def precheck (env : Env) (options : Options) : Op → Except Error Unit
  | .createCronTrigger submission _ => do
    (cronJob submission).validate options.maxSlotCost options.allowShell
    let _ ← env.schedule submission.expression
  | _ => .ok ()

def replay (kind : RequestKind) (response : Response) : Reply :=
  match kind with
  | .job => .job response.toJob true
  | .workflow => .jobs response.toJobs true
  | .cron => .cron response.toCron true

def repeated : Reply → Reply
  | .job job _ => .job job true
  | .jobs jobs _ => .jobs jobs true
  | .cron trigger _ => .cron trigger true
  | .dag id jobs _ => .dag id jobs true
  | .recorded _ => .recorded true
  | .audit event _ => .audit event true
  | .receipt receipt => .receipt { receipt with duplicate := true }
  | reply => reply

def settled (db : Database) : Except Error α → EStateM.Result Error Database α
  | .ok value => .ok value db
  | .error error => .error error db

theorem settled_lift (h : ∀ value, next value db = settled db (rest value)) :
    (lift result >>= next) db = settled db (result >>= rest) := by
  cases result with
  | ok value => exact h value
  | error error => rfl

theorem settled_map {program : Tx α} {result : Except Error α} (view : α → β)
    (h : program db = settled db result) :
    (program >>= fun value => pure (view value)) db = settled db (result.map view) := by
  cases result with
  | ok value => exact bind_run h
  | error error => exact bind_run_error h

theorem commit_settled (h : program db = settled db result) : commit program db = (result, db) := by
  unfold commit
  rw [h]
  cases result <;> rfl

def recollect (key digest : String) (kind : RequestKind) (row : IdempotencyRow) (value : α) :
    Except Error α := do
  validateIdempotency key digest
  if row.requestKind = kind ∧ row.requestDigest = digest then .ok value
  else .error .idempotencyConflict

theorem map_recall (view : α → β) (key digest : String) (kind : RequestKind)
    (row : IdempotencyRow) (value : α) :
    (recollect key digest kind row value).map view = recollect key digest kind row (view value) := by
  unfold recollect
  cases validateIdempotency key digest with
  | error error => rfl
  | ok _ =>
    change Except.map view (if _ then _ else _) = if _ then _ else _
    split <;> rfl

theorem readIdempotency_found (h : db.idempotencyRequests.get? (tenantID, key) = some row)
    (kind : RequestKind) (digest : String) :
    readIdempotency tenantID key kind digest db =
      if row.requestKind = kind ∧ row.requestDigest = digest then .ok (some row.response) db
      else .error .idempotencyConflict db := by
  refine (bind_run (select_found h)).trans ?_
  by_cases hmatch : row.requestKind = kind ∧ row.requestDigest = digest
  · rw [if_pos hmatch]
    exact bind_run (require_run _ _ hmatch)
  · rw [if_neg hmatch]
    exact bind_run_error (require_run_error _ _ hmatch)

theorem lookup_found (hrow : db.idempotencyRequests.get? (tenantID, key) = some row)
    (hnext : next (some row.response) db = .ok value db) :
    (lift (validateIdempotency key digest) >>= fun _ =>
      readIdempotency tenantID key kind digest >>= next) db =
      settled db (recollect key digest kind row value) := by
  refine settled_lift fun _ => ?_
  have hread := readIdempotency_found hrow kind digest
  by_cases hmatch : row.requestKind = kind ∧ row.requestDigest = digest
  · rw [if_pos hmatch] at hread ⊢
    exact (bind_run hread).trans hnext
  · rw [if_neg hmatch] at hread ⊢
    exact bind_run_error hread

def answer (env : Env) (options : Options) (op : Op) (request : Request) (row : IdempotencyRow) :
    Except Error Reply := do
  precheck env options op
  recollect request.key request.digest request.kind row (replay request.kind row.response)

theorem submitJob_found (hrow : db.idempotencyRequests.get?
      (submission.job.normalize.tenantID, submission.idempotencyKey) = some row) :
    submitJob options submission entropy now db =
      settled db (recollect submission.idempotencyKey submission.requestDigest .job row
        (row.response.toJob, true)) := lookup_found hrow rfl

theorem recollect_ok {α : Type} {key digest : String} {kind : RequestKind} {row : IdempotencyRow}
    {value found : α} (h : recollect key digest kind row value = .ok found) :
    row.requestKind = kind ∧ row.requestDigest = digest ∧ value = found := by
  obtain ⟨_, _, h⟩ := except_bind_ok h
  split at h
  · rename_i hmatch
    cases h
    exact ⟨hmatch.1, hmatch.2, rfl⟩
  · cases h

theorem program_found (hrequest : requestOf op = some request)
    (hrow : db.idempotencyRequests.get? (request.tenantID, request.key) = some row) :
    op.program env options now db = settled db (answer env options op request row) := by
  cases op <;> cases hrequest
  case submitJob submission entropy =>
    exact (settled_map _ (submitJob_found hrow)).trans (congrArg (settled db) (map_recall ..))
  case submitWorkflow submission entropy =>
    have hsubmit : submitWorkflow options submission entropy now db =
        settled db (recollect submission.idempotencyKey submission.requestDigest .workflow row
          (row.response.toJobs, true)) := lookup_found hrow rfl
    exact (settled_map _ hsubmit).trans (congrArg (settled db) (map_recall ..))
  case createCronTrigger submission entropy =>
    have hcreate : createCronTrigger env options submission entropy now db = settled db (do
        (cronJob submission).validate options.maxSlotCost options.allowShell
        let _ ← env.schedule submission.expression
        recollect submission.idempotencyKey submission.requestDigest .cron row
          (row.response.toCron, true)) :=
      settled_lift fun _ => settled_lift fun _ => lookup_found hrow rfl
    refine (settled_map _ hcreate).trans (congrArg (settled db) ?_)
    simp only [answer, precheck]
    cases (cronJob submission).validate options.maxSlotCost options.allowShell with
    | error error => rfl
    | ok _ =>
      cases env.schedule submission.expression with
      | error error => rfl
      | ok _ => exact map_recall ..

theorem aloof_idempotencyRequests : Aloof Database.idempotencyRequests := by
  refine { toApart := ?_, attempts := fun _ _ => rfl }
  constructor <;> intros <;> rfl

theorem recordIdempotency_ok (h : recordIdempotency tenantID key row db = .ok () db') :
    db'.idempotencyRequests = db.idempotencyRequests.insert (tenantID, key) row := by
  obtain ⟨_, h⟩ := require_bind h
  rw [← (insert_ok h).2]
  rfl

section Fresh

theorem submitJob_fresh (habsent : db.idempotencyRequests.get?
      (submission.job.normalize.tenantID, submission.idempotencyKey) = none)
    (h : submitJob options submission entropy now db = .ok result db') :
    result.2 = false ∧ db'.idempotencyRequests = db.idempotencyRequests.insert
      (submission.job.normalize.tenantID, submission.idempotencyKey)
      ⟨.job, submission.requestDigest, some result.1.id, .job result.1, timeToDB now⟩ := by
  obtain ⟨_, _, h⟩ := lift_bind h
  replace h := readIdempotency_fresh habsent h
  obtain ⟨job, _, hadmit, h⟩ := bind_ok h
  obtain ⟨_, rfl, hrecord⟩ := bind_pure_ok h
  refine ⟨rfl, ?_⟩
  rw [recordIdempotency_ok hrecord,
    Preserves.ok ((aloof_idempotencyRequests.moves _ _).admitJob _ _ _ _) hadmit]

theorem submitWorkflow_fresh (habsent : db.idempotencyRequests.get?
      (tenantOrDefault workflow.tenantID, workflow.idempotencyKey) = none)
    (h : submitWorkflow options workflow entropy now db = .ok result db') :
    db'.idempotencyRequests = db.idempotencyRequests.insert
      (tenantOrDefault workflow.tenantID, workflow.idempotencyKey)
      ⟨.workflow, workflow.requestDigest, none, .jobs result.1, timeToDB now⟩ := by
  obtain ⟨_, _, h⟩ := lift_bind h
  replace h := readIdempotency_fresh habsent h
  obtain ⟨jobs, _, hadmit, h⟩ := bind_ok h
  obtain ⟨_, rfl, hrecord⟩ := bind_pure_ok h
  rw [recordIdempotency_ok hrecord,
    Preserves.ok ((aloof_idempotencyRequests.moves _ _).admitWorkflow _ _ _ _ _) hadmit]

theorem createCronTrigger_fresh (habsent : db.idempotencyRequests.get?
      (tenantOrDefault trigger.tenantID, trigger.idempotencyKey) = none)
    (h : createCronTrigger env options trigger entropy now db = .ok result db') :
    db'.idempotencyRequests = db.idempotencyRequests.insert
      (tenantOrDefault trigger.tenantID, trigger.idempotencyKey)
      ⟨.cron, trigger.requestDigest, none, .cron result.1, timeToDB now⟩ := by
  obtain ⟨_, _, h⟩ := lift_bind h
  obtain ⟨_, _, h⟩ := lift_bind h
  obtain ⟨_, _, h⟩ := lift_bind h
  replace h := readIdempotency_fresh habsent h
  obtain ⟨_, h⟩ := require_bind h
  obtain ⟨_, _, hinsert, h⟩ := bind_ok h
  obtain ⟨_, rfl, hrecord⟩ := bind_pure_ok h
  rw [recordIdempotency_ok hrecord, ← (insert_ok hinsert).2]
  rfl

end Fresh

structure Answers (request : Request) (reply : Reply) (row : IdempotencyRow) : Prop where
  kind : row.requestKind = request.kind
  digest : row.requestDigest = request.digest
  reply : replay request.kind row.response = repeated reply

theorem program_fresh (hrequest : requestOf op = some request)
    (habsent : db.idempotencyRequests.get? (request.tenantID, request.key) = none)
    (h : op.program env options now db = .ok reply db') :
    ∃ row, Answers request reply row ∧ db'.idempotencyRequests =
      db.idempotencyRequests.insert (request.tenantID, request.key) row := by
  cases op <;> cases hrequest
  case submitJob submission entropy =>
    obtain ⟨result, rfl, hsubmit⟩ := bind_pure_ok h
    exact ⟨_, ⟨rfl, rfl, rfl⟩, (submitJob_fresh habsent hsubmit).2⟩
  case submitWorkflow submission entropy =>
    obtain ⟨result, rfl, hsubmit⟩ := bind_pure_ok h
    exact ⟨_, ⟨rfl, rfl, rfl⟩, submitWorkflow_fresh habsent hsubmit⟩
  case createCronTrigger submission entropy =>
    obtain ⟨result, rfl, hcreate⟩ := bind_pure_ok h
    exact ⟨_, ⟨rfl, rfl, rfl⟩, createCronTrigger_fresh habsent hcreate⟩

theorem answer_ok {request : Request} {row : IdempotencyRow}
    (h : answer env options op request row = .ok reply) :
    precheck env options op = .ok () ∧ reply = replay request.kind row.response ∧
      Answers request reply row := by
  obtain ⟨_, hcheck, h⟩ := except_bind_ok h
  obtain ⟨hkind, hdigest, rfl⟩ := recollect_ok h
  exact ⟨hcheck, rfl, hkind, hdigest, by cases request.kind <;> rfl⟩

theorem program_answers (hrequest : requestOf op = some request)
    (h : op.program env options now db = .ok reply db') :
    ∃ row, db'.idempotencyRequests.get? (request.tenantID, request.key) = some row ∧
      Answers request reply row := by
  cases hrow : db.idempotencyRequests.get? (request.tenantID, request.key) with
  | none =>
    obtain ⟨row, hanswers, hinsert⟩ := program_fresh hrequest hrow h
    refine ⟨row, ?_, hanswers⟩
    rw [hinsert, Table.get?_insert_self _ _ hrow]
  | some row =>
    rw [program_found hrequest hrow] at h
    cases hanswer : answer env options op request row with
    | error error =>
      rw [hanswer] at h
      cases h
    | ok found =>
      rw [hanswer] at h
      cases h
      exact ⟨row, hrow, (answer_ok hanswer).2.2⟩

def Kept (db db' : Database) : Prop :=
  ∀ key row, db.idempotencyRequests.get? key = some row →
    db'.idempotencyRequests.get? key = some row

theorem area_of_none (h : requestOf op = none) : area op ≠ .submissions ∧ area op ≠ .triggers := by
  cases op <;> first | exact ⟨Area.noConfusion, Area.noConfusion⟩ | cases h

theorem outside_idempotencyRequests (h : requestOf op = none) :
    Outside Database.idempotencyRequests (area op) := by
  obtain ⟨hsubmissions, htriggers⟩ := area_of_none h
  cases hop : area op with
  | submissions => exact (hsubmissions hop).elim
  | triggers => exact (htriggers hop).elim
  | _ =>
    dsimp only [Outside, Deaf]
    repeat' constructor
    all_goals intros; rfl

theorem kept_step (env : Env) (store : StoreState) (call : Call) :
    Kept store.db (step env store call).2.db := by
  intro key row hrow
  cases hrequest : requestOf call.op with
  | none => rwa [step_preserves aloof_idempotencyRequests (outside_idempotencyRequests hrequest)]
  | some request =>
    rcases step_cases env store call with hsame | ⟨now, reply, _, _, hrun⟩
    · rwa [hsame]
    · cases hold : store.db.idempotencyRequests.get? (request.tenantID, request.key) with
      | none =>
        obtain ⟨added, _, hinsert⟩ := program_fresh hrequest hold hrun
        rw [hinsert]
        exact Table.get?_insert_of_get? _ _ _ hrow
      | some old =>
        rw [program_found hrequest hold] at hrun
        cases hanswer : answer env store.options call.op request old with
        | error error =>
          rw [hanswer] at hrun
          cases hrun
        | ok found =>
          rw [hanswer] at hrun
          change EStateM.Result.ok found store.db = _ at hrun
          obtain ⟨_, hsame⟩ := EStateM.Result.ok.inj hrun
          rwa [← hsame]

end RailYard.Refinement
