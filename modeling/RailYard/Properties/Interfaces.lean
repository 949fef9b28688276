import RailYard.Refinement.Interfaces
import RailYard.Properties.Operators

/-! The two interfaces that take submissions agree. In every reachable state and
under keys that nothing is recorded for, they refuse a specification with the
same class of error or admit it with the same effect on jobs and their tables. -/
namespace RailYard.Properties
open Library Library.Transaction Domain Store
open Refinement

variable {env : Env} {options : Options} {now : Time} {db : Database}

def sentinels : List Error :=
  [.notFound, .queueFull, .idempotencyConflict, .cycleDetected, .staleLease, .terminalJob,
    .deadLetterRedriven, .conflict, .workerCapacityConflict]

/-- `errors.Is` answers alike for every sentinel. -/
def SameClass (error error' : Error) : Prop :=
  ∀ sentinel ∈ sentinels, Error.is sentinel error = Error.is sentinel error'

theorem sameClass_text (message message' : String) : SameClass (.text message) (.text message') := by
  intro sentinel hsentinel
  simp only [sentinels, List.mem_cons, List.not_mem_nil, or_false] at hsentinel
  rcases hsentinel with rfl | rfl | rfl | rfl | rfl | rfl | rfl | rfl | rfl <;> rfl

def newJobs : Reply → Option (List Job)
  | .job job false => some [job]
  | .jobs jobs false => some jobs
  | .dag _ jobs false => some jobs
  | _ => none

def Concurs (first second : Except Error Reply × StoreState) : Prop :=
  match first.1, second.1 with
  | .ok reply, .ok reply' => ∃ jobs, newJobs reply = some jobs ∧ newJobs reply' = some jobs ∧
      admitted first.2.db = admitted second.2.db
  | .error error, .error error' => SameClass error error'
  | _, _ => False

section Programs

def Ends : EStateM.Result Error Database Reply → EStateM.Result Error Database Reply → Prop
  | .ok reply db, .ok reply' db' => ∃ jobs, newJobs reply = some jobs ∧
      newJobs reply' = some jobs ∧ admitted db = admitted db'
  | .error error _, .error error' _ => SameClass error error'
  | _, _ => False

theorem concurs_perform {store : StoreState}
    (h : ∀ now, Ends (program now store.db) (program' now store.db)) :
    Concurs (store.perform reading program) (store.perform reading program') := by
  have hends := h (store.clock.writeTime reading)
  unfold Concurs StoreState.perform commit
  dsimp only
  cases hrun : program (store.clock.writeTime reading) store.db <;>
    cases hrun' : program' (store.clock.writeTime reading) store.db <;>
    rw [hrun, hrun'] at hends <;> exact hends

theorem ends_bind {α : Type} {program program' : Tx α} {next next' : α → Tx Reply}
    (hagree : Agree admitted (program db) (program' db))
    (hnext : ∀ value between between', program db = .ok value between →
      program' db = .ok value between' → admitted between = admitted between' →
      Ends (next value between) (next' value between')) :
    Ends ((program >>= next) db) ((program' >>= next') db) := by
  rcases hagree.cases with
    ⟨value, between, between', hrun, hrun', hbetween⟩ | ⟨error, _, _, hrun, hrun'⟩
  · rw [bind_run hrun, bind_run hrun']
    exact hnext value between between' hrun hrun' hbetween
  · rw [bind_run_error hrun, bind_run_error hrun']
    exact fun _ _ => rfl

end Programs

def auditID (sha256 : Hash) (tenantID action key : String) : String :=
  "audit-" ++ shortDigest sha256 (tenantID ++ "\x00" ++ action ++ "\x00" ++ key)

/-- Nothing is recorded under the keys or under a name made from them. -/
structure Unused (sha256 : Hash) (db : Database) (tenantID action submissionKey requestKey : String) :
    Prop where
  submission : db.idempotencyRequests.get? (tenantID, submissionKey) = none
  request : db.operationRequests.get? (tenantID, action, requestKey) = none
  audit : db.auditEvents.get? (auditID sha256 tenantID action requestKey) = none

theorem Unused.unrecorded {submissionKey : String}
    (unused : Unused env.sha256 db tenantID action submissionKey requestKey) (audits : OneToOne db)
    (htrail : trail between = trail db) {control : ControlAction}
    (hscope : (control.tenantID, control.action, control.idempotencyKey) =
      (tenantID, action, requestKey)) : Unrecorded env.sha256 between control := by
  obtain ⟨rfl, rfl, rfl⟩ : control.tenantID = tenantID ∧ control.action = action ∧
      control.idempotencyKey = requestKey := by simpa using hscope
  have hrequests : between.operationRequests = db.operationRequests :=
    congrArg Trail.requests htrail
  have haudits : between.auditEvents = db.auditEvents := congrArg Trail.audits htrail
  refine ⟨by rw [hrequests]; exact unused.request, ?_, by rw [haudits]; exact unused.audit⟩
  intro entry hentry heq
  rw [haudits] at hentry
  have hrequested := audits.requested entry hentry
  rw [heq, unused.request] at hrequested
  cases hrequested

theorem validateIdempotency_error (h : validateIdempotency key digest = .error error) :
    ∃ message, error = .text message := by
  unfold validateIdempotency at h
  split at h
  · cases h
    exact ⟨_, rfl⟩
  · split at h
    · cases h
      exact ⟨_, rfl⟩
    · cases h

theorem valid_or_refused
    (h : (validateIdempotency key digest).isOk = (validateIdempotency key' digest').isOk) :
    validateIdempotency key digest = .ok () ∧ validateIdempotency key' digest' = .ok () ∨
      ∃ message message', validateIdempotency key digest = .error (.text message) ∧
        validateIdempotency key' digest' = .error (.text message') := by
  cases hvalid : validateIdempotency key digest <;>
    cases hvalid' : validateIdempotency key' digest' <;> rw [hvalid, hvalid'] at h
  case ok.ok => exact .inl ⟨rfl, rfl⟩
  case error.error =>
    obtain ⟨message, rfl⟩ := validateIdempotency_error hvalid
    obtain ⟨message', rfl⟩ := validateIdempotency_error hvalid'
    exact .inr ⟨message, message', rfl, rfl⟩
  all_goals cases h

theorem ends_refused {program program' : Tx Reply} {db' last last' : Database}
    {message message' : String} (hrun : program db = .error (.text message) last)
    (hrun' : program' db' = .error (.text message') last') : Ends (program db) (program' db') := by
  rw [hrun, hrun']
  exact sameClass_text message message'

theorem ends_recorded {record record' : Tx Unit} {response : Response} {message message' : String}
    {reply reply' : Reply} {jobs : List Job} {between between' : Database}
    (hwritten : response.encodable = true → ∃ last last', record between = .ok () last ∧
      record' between' = .ok () last' ∧ admitted last = admitted last')
    (hrefused : ¬response.encodable = true → ∃ last last',
      record between = .error (.text message) last ∧
      record' between' = .error (.text message') last')
    (first : newJobs reply = some jobs) (second : newJobs reply' = some jobs) :
    Ends ((record >>= fun _ => pure reply) between) ((record' >>= fun _ => pure reply') between') := by
  by_cases hencodable : response.encodable = true
  · obtain ⟨last, last', hrun, hrun', htables⟩ := hwritten hencodable
    rw [bind_run hrun, bind_run hrun']
    exact ⟨jobs, first, second, htables⟩
  · obtain ⟨last, last', hrun, hrun'⟩ := hrefused hencodable
    exact ends_refused (bind_run_error hrun) (bind_run_error hrun')

section Jobs

variable {submission operation : Submission} {entropy : Entropy}

def jobAction (operation : Submission) (now : Time) (job : Job) : ControlAction where
  tenantID := job.tenantID
  idempotencyKey := operation.idempotencyKey
  action := "job.submit"
  actor := operation.actor
  requestDigest := operation.requestDigest
  committedAt := now
  targetType := "job"
  targetID := job.id
  targetState := some job.state
  targetVersion := job.stateVersion
  response := .submitted job
  details := [("queue", job.queue), ("tenant_id", job.tenantID)]

theorem submitJob_ends (audits : OneToOne db) (same : operation.job = submission.job)
    (keys : (validateIdempotency submission.idempotencyKey submission.requestDigest).isOk =
      (validateIdempotency operation.idempotencyKey operation.requestDigest).isOk)
    (unused : Unused env.sha256 db submission.job.normalize.tenantID "job.submit"
      submission.idempotencyKey operation.idempotencyKey) :
    Ends ((Op.submitJob submission entropy).program env options now db)
      ((Op.submitJobOperation operation entropy).program env options now db) := by
  rcases valid_or_refused keys with ⟨hvalid, hvalid'⟩ | ⟨message, message', herror, herror'⟩
  case inr =>
    exact ends_refused (bind_run_error (bind_run_error (lift_run_error herror)))
      (bind_run_error (bind_run_error (lift_run_error herror')))
  have hrequest := unused.request
  rw [← same] at hrequest
  change Ends ((submitJob options submission entropy now >>= _) db)
    ((submitJobOperation env.sha256 options operation entropy now >>= _) db)
  unfold submitJob submitJobOperation
  simp only [bind_assoc]
  rw [bind_run (lift_run hvalid), bind_run (readIdempotency_none unused.submission),
    bind_run (lift_run hvalid'), bind_run (readControlAction_none hrequest), same]
  simp only [bind_assoc, pure_bind]
  refine ends_bind (alike_admitJob _ _ _ _ _ _ _ db db rfl) ?_
  intro job between between' hrun hrun' htables
  have habsent : between.idempotencyRequests.get?
      (submission.job.normalize.tenantID, submission.idempotencyKey) = none := by
    rw [Preserves.ok ((aloof_idempotencyRequests.moves now _).admitJob _ _ _ _) hrun]
    exact unused.submission
  have hfresh : Unrecorded env.sha256 between' (jobAction operation now job) :=
    unused.unrecorded audits
      (Preserves.ok ((aloof_trail.moves now).admitJob _ _ _ _) hrun')
      (by rw [← admitJob_tenantID hrun']; rfl)
  have hwritten : (Response.job job).encodable = true → ∃ last last',
      recordIdempotency submission.job.normalize.tenantID submission.idempotencyKey
        ⟨.job, submission.requestDigest, some job.id, .job job, timeToDB now⟩ between =
        .ok () last ∧
      insertControlAction env.sha256 (jobAction operation now job) between' = .ok () last' ∧
      admitted last = admitted last' := by
    intro hencodable
    obtain ⟨requests, audits, hrecord'⟩ := insertControlAction_ok_of hencodable hfresh
    exact ⟨_, _, recordIdempotency_ok_of hencodable habsent, hrecord', htables⟩
  exact ends_recorded hwritten (fun hencodable => ⟨_, _,
    recordIdempotency_error_of hencodable, insertControlAction_error_of hencodable⟩) rfl rfl

end Jobs

/-- Nothing belongs to the DAG yet, and no other DAG has taken its key. -/
structure UnusedDag (sha256 : Hash) (db : Database) (tenantID key dagID : String) : Prop where
  run : db.dagRuns.get? dagID = none
  key : ∀ entry ∈ db.dagRuns.rows,
    entry.2.idempotencyKey ≠ scopedKey sha256 tenantID "dag.submit" key
  nodes : ∀ entry ∈ db.dagJobs.rows, entry.1.1 ≠ dagID

section Workflows

variable {submission operation : WorkflowSubmission} {entropy : Nat → Entropy} {dagID : String}

def dagAction (operation : WorkflowSubmission) (dagID : String) (now : Time) (jobs : List Job) :
    ControlAction where
  tenantID := tenantOrDefault operation.tenantID
  idempotencyKey := operation.idempotencyKey
  action := "dag.submit"
  actor := operation.actor
  requestDigest := operation.requestDigest
  committedAt := now
  targetType := "dag"
  targetID := dagID
  response := .dag dagID jobs
  details := [("tenant_id", tenantOrDefault operation.tenantID)]

def dagRow (sha256 : Hash) (operation : WorkflowSubmission) (now : Time) : DagRow where
  tenantID := tenantOrDefault operation.tenantID
  idempotencyKey :=
    scopedKey sha256 (tenantOrDefault operation.tenantID) "dag.submit" operation.idempotencyKey
  requestDigest := operation.requestDigest
  createdAt := timeToDB now
  updatedAt := timeToDB now

def recordDag (sha256 : Hash) (operation : WorkflowSubmission) (dagID : String) (now : Time)
    (jobs : List Job) : Tx Unit := do
  insertDag dagID (dagRow sha256 operation now)
  (List.zipWith dagNode jobs operation.nodes).forM (insertDagNode dagID)
  insertControlAction sha256 (dagAction operation dagID now jobs)

def dags (db : Database) : Table String DagRow × Table (String × String) DagJobRow :=
  (db.dagRuns, db.dagJobs)

theorem admits_dags (now : Time) : Admits now admission (Unchanged dags) := by
  constructor <;> intros <;> rfl

theorem map_zipWith_dagNode {jobs : List Job} (h : jobs.length = nodes.length) :
    (List.zipWith dagNode jobs nodes).map DagNode.jobID = jobs.map Job.id ∧
      (List.zipWith dagNode jobs nodes).map DagNode.key = nodes.map WorkflowNode.key := by
  induction jobs generalizing nodes with
  | nil =>
    obtain rfl : nodes = [] := List.eq_nil_of_length_eq_zero h.symm
    exact ⟨rfl, rfl⟩
  | cons job rest ih =>
    cases nodes with
    | nil => cases h
    | cons node others =>
      obtain ⟨hids, hkeys⟩ := ih (Nat.succ.inj h)
      exact ⟨congrArg (job.id :: ·) hids, congrArg (node.key :: ·) hkeys⟩

theorem insertDag_written {jobs : List Job} (exist : NodesExist db) (hdags : dags between = dags db)
    (workflow : WorkflowJobs nodes jobs db between) (hrun : db.dagRuns.get? dagID = none)
    (hkey : ∀ entry ∈ db.dagRuns.rows, entry.2.idempotencyKey ≠ row.idempotencyKey)
    (hnodes : ∀ entry ∈ db.dagJobs.rows, entry.1.1 ≠ dagID) :
    ∃ table, insertDag dagID row between =
        .ok () { between with dagRuns := between.dagRuns.insert dagID row } ∧
      (List.zipWith dagNode jobs nodes).forM (insertDagNode dagID)
        { between with dagRuns := between.dagRuns.insert dagID row } =
        .ok () { between with dagRuns := between.dagRuns.insert dagID row, dagJobs := table } := by
  have hruns : between.dagRuns = db.dagRuns := congrArg Prod.fst hdags
  have hentries : between.dagJobs = db.dagJobs := congrArg Prod.snd hdags
  obtain ⟨hids, hkeys⟩ := map_zipWith_dagNode workflow.length
  have hjob : ∀ node ∈ List.zipWith dagNode jobs nodes, ∃ job ∈ jobs, job.id = node.jobID := by
    intro node hnode
    have hmem : node.jobID ∈ jobs.map Job.id := hids ▸ List.mem_map.mpr ⟨node, hnode, rfl⟩
    exact List.mem_map.mp hmem
  have hwritten : ∃ table, (List.zipWith dagNode jobs nodes).forM (insertDagNode dagID)
      { between with dagRuns := between.dagRuns.insert dagID row } =
      .ok () { between with dagRuns := between.dagRuns.insert dagID row, dagJobs := table } := by
    refine insertDagNodes_ok_of (hids ▸ workflow.ids) (hkeys ▸ workflow.keys) ?_ ?_
    · intro node hnode
      obtain ⟨job, hmem, heq⟩ := hjob node hnode
      rw [← heq]
      exact workflow.found job hmem
    · intro node hnode entry hentry
      obtain ⟨job, hmem, heq⟩ := hjob node hnode
      rw [hentries] at hentry
      refine ⟨fun hsame => ?_, .inl (hnodes entry hentry)⟩
      have hexists := exist entry hentry
      rw [hsame, ← heq, workflow.fresh job hmem] at hexists
      cases hexists
  obtain ⟨table, htable⟩ := hwritten
  exact ⟨table, insertDag_ok_of (by rw [hruns]; exact hkey) (by rw [hruns]; exact hrun), htable⟩

theorem submitWorkflow_ends (audits : OneToOne db) (exist : NodesExist db)
    (sameTenant : operation.tenantID = submission.tenantID)
    (sameNodes : operation.nodes = submission.nodes)
    (keys : (validateIdempotency submission.idempotencyKey submission.requestDigest).isOk =
      (validateIdempotency operation.idempotencyKey operation.requestDigest).isOk)
    (unused : Unused env.sha256 db (tenantOrDefault submission.tenantID) "dag.submit"
      submission.idempotencyKey operation.idempotencyKey)
    (unusedDag : UnusedDag env.sha256 db (tenantOrDefault submission.tenantID)
      operation.idempotencyKey dagID) :
    Ends ((Op.submitWorkflow submission entropy).program env options now db)
      ((Op.submitDagOperation dagID operation entropy).program env options now db) := by
  rw [← sameTenant] at unused unusedDag
  rcases valid_or_refused keys with ⟨hvalid, hvalid'⟩ | ⟨message, message', herror, herror'⟩
  case inr =>
    exact ends_refused (bind_run_error (bind_run_error (lift_run_error herror)))
      (bind_run_error (bind_run_error (lift_run_error herror')))
  change Ends ((submitWorkflow options submission entropy now >>= _) db)
    ((submitDagOperation env.sha256 options dagID operation entropy now >>= _) db)
  unfold submitWorkflow submitDagOperation
  simp only [bind_assoc]
  rw [bind_run (lift_run hvalid), bind_run (readIdempotency_none (sameTenant ▸ unused.submission)),
    bind_run (lift_run hvalid'), bind_run (readControlAction_none unused.request), ← sameTenant,
    ← sameNodes]
  simp only [bind_assoc, pure_bind]
  refine ends_bind (alike_admitWorkflow _ _ _ _ _ _ _ _ db db rfl) ?_
  intro jobs between between' hrun hrun' htables
  have habsent : between.idempotencyRequests.get?
      (tenantOrDefault operation.tenantID, submission.idempotencyKey) = none := by
    rw [Preserves.ok ((aloof_idempotencyRequests.moves now _).admitWorkflow _ _ _ _ _) hrun]
    exact unused.submission
  have htrail := Preserves.ok ((aloof_trail.moves now).admitWorkflow _ _ _ _ _) hrun'
  have hdags := Preserves.ok ((admits_dags now).admitWorkflow _ _ _ _ _) hrun'
  have hkey : ∀ entry ∈ db.dagRuns.rows,
      entry.2.idempotencyKey ≠ (dagRow env.sha256 operation now).idempotencyKey := unusedDag.key
  obtain ⟨table, hdag, hnodes⟩ := insertDag_written exist hdags (admitWorkflow_jobs hrun')
    unusedDag.run hkey unusedDag.nodes
  have hwritten : (Response.jobs jobs).encodable = true → ∃ last last',
      recordIdempotency (tenantOrDefault operation.tenantID) submission.idempotencyKey
        ⟨.workflow, submission.requestDigest, none, .jobs jobs, timeToDB now⟩ between =
        .ok () last ∧
      recordDag env.sha256 operation dagID now jobs between' = .ok () last' ∧
      admitted last = admitted last' := by
    intro hencodable
    have hrecorded : trail { between' with
        dagRuns := between'.dagRuns.insert dagID (dagRow env.sha256 operation now)
        dagJobs := table } = trail db := htrail
    have hfresh : Unrecorded env.sha256 _ (dagAction operation dagID now jobs) :=
      unused.unrecorded audits hrecorded rfl
    obtain ⟨requests, audits, hrecord'⟩ := insertControlAction_ok_of hencodable hfresh
    exact ⟨_, _, recordIdempotency_ok_of hencodable habsent,
      (bind_run hdag).trans ((bind_run hnodes).trans hrecord'), htables⟩
  have hends := ends_recorded hwritten (fun hencodable => ⟨_, _,
    recordIdempotency_error_of hencodable, (bind_run hdag).trans ((bind_run hnodes).trans
      (insertControlAction_error_of hencodable))⟩) (rfl : newJobs (.jobs jobs false) = _)
    (rfl : newJobs (.dag dagID jobs false) = _)
  simp only [recordDag, bind_assoc] at hends
  exact hends

end Workflows

def JobsConcur (env : Env) (store : StoreState) (reading : Reading) : Prop :=
  ∀ (submission operation : Submission) (entropy : Entropy), operation.job = submission.job →
    (validateIdempotency submission.idempotencyKey submission.requestDigest).isOk =
      (validateIdempotency operation.idempotencyKey operation.requestDigest).isOk →
    Unused env.sha256 store.db submission.job.normalize.tenantID "job.submit"
      submission.idempotencyKey operation.idempotencyKey →
    Concurs (step env store ⟨.submitJob submission entropy, reading⟩)
      (step env store ⟨.submitJobOperation operation entropy, reading⟩)

def WorkflowsConcur (env : Env) (store : StoreState) (reading : Reading) : Prop :=
  ∀ (submission operation : WorkflowSubmission) (dagID : String) (entropy : Nat → Entropy),
    operation.tenantID = submission.tenantID → operation.nodes = submission.nodes →
    (validateIdempotency submission.idempotencyKey submission.requestDigest).isOk =
      (validateIdempotency operation.idempotencyKey operation.requestDigest).isOk →
    Unused env.sha256 store.db (tenantOrDefault submission.tenantID) "dag.submit"
      submission.idempotencyKey operation.idempotencyKey →
    UnusedDag env.sha256 store.db (tenantOrDefault submission.tenantID)
      operation.idempotencyKey dagID →
    Concurs (step env store ⟨.submitWorkflow submission entropy, reading⟩)
      (step env store ⟨.submitDagOperation dagID operation entropy, reading⟩)

/-- In every reachable state and at every reading of the clock the interfaces
agree on what they are given under unused keys. -/
theorem submissions_concur (env : Env) (options : Options) (activities : List Activity)
    (reading : Reading) :
    JobsConcur env (run env (freshStore options) activities) reading ∧
      WorkflowsConcur env (run env (freshStore options) activities) reading := by
  have haudits := oneToOne_run env options activities
  constructor
  · intro submission operation entropy same keys unused
    exact concurs_perform fun now => submitJob_ends haudits same keys unused
  · intro submission operation dagID entropy sameTenant sameNodes keys unused unusedDag
    exact concurs_perform fun now => submitWorkflow_ends haudits
      (nodesExist_run env options activities) sameTenant sameNodes keys unused unusedDag

def plainSubmission : Submission where
  job := { payload := { type := .noop }, dependsOn := [newID (entropyOf 1)] }
  actor := "operator"
  idempotencyKey := "submit"
  requestDigest := "digest"

def plainWorkflow : WorkflowSubmission where
  tenantID := ""
  nodes := [⟨"build", { payload := { type := .noop } }⟩,
    ⟨"test", { payload := { type := .noop }, dependsOn := ["build"] }⟩]
  actor := "operator"
  idempotencyKey := "workflow"
  requestDigest := "digest"

theorem submissions_concur_second :
    let store := run plainEnv (freshStore defaultOptions) [plainJob 1 []]
    let entropy := fun index => entropyOf (UInt8.ofNat (index + 3))
    ((step plainEnv store ⟨.submitJob plainSubmission (entropyOf 2), ⟨1, 0⟩⟩).1.isOk = true ∧
      Concurs (step plainEnv store ⟨.submitJob plainSubmission (entropyOf 2), ⟨1, 0⟩⟩)
        (step plainEnv store ⟨.submitJobOperation plainSubmission (entropyOf 2), ⟨1, 0⟩⟩)) ∧
    (step plainEnv store ⟨.submitWorkflow plainWorkflow entropy, ⟨1, 0⟩⟩).1.isOk = true ∧
      Concurs (step plainEnv store ⟨.submitWorkflow plainWorkflow entropy, ⟨1, 0⟩⟩)
        (step plainEnv store ⟨.submitDagOperation "dag" plainWorkflow entropy, ⟨1, 0⟩⟩) := by
  intro store entropy
  have hconcur := submissions_concur plainEnv defaultOptions [plainJob 1 []] ⟨1, 0⟩
  refine ⟨⟨by decide +kernel, ?_⟩, by decide +kernel, ?_⟩
  · exact hconcur.1 plainSubmission plainSubmission (entropyOf 2) rfl rfl
      ⟨by decide +kernel, by decide +kernel, by decide +kernel⟩
  · exact hconcur.2 plainWorkflow plainWorkflow "dag" entropy rfl rfl rfl
      ⟨by decide +kernel, by decide +kernel, by decide +kernel⟩
      ⟨by decide +kernel, by decide +kernel, by decide +kernel⟩

end RailYard.Properties
