import RailYard.Store.Submissions
import RailYard.Store.Maintenance

/-! Requests of operators. Each is recorded under its tenant, action and key
together with its answer, and the record is what a repeated request is
answered from. -/
namespace RailYard.Store
open Library.Transaction Domain

structure ControlAction where
  tenantID : String
  idempotencyKey : String
  action : String
  actor : String
  reason : String := ""
  requestDigest : String
  committedAt : Time
  targetType : String
  targetID : String
  targetState : Option JobState := none
  targetVersion : Int := 0
  response : Response := .empty
  details : List (String × String)

def readControlAction (tenantID key action digest : String) : Tx (Option Response) := do
  match ← select operationRequests (tenantID, action, key) with
  | none => return none
  | some row =>
    require (row.requestDigest = digest) .idempotencyConflict
    return some row.response

def newAuditEvent (sha256 : Hash) (action : ControlAction) : AuditEvent where
  id := "audit-" ++ shortDigest sha256
    (action.tenantID ++ "\x00" ++ action.action ++ "\x00" ++ action.idempotencyKey)
  tenantID := action.tenantID
  action := action.action
  actor := action.actor
  occurredAt := action.committedAt
  targetType := action.targetType
  targetID := action.targetID
  details := action.details

/-- A tenant's action and key are unique among the audit events too. -/
def insertAudit (id : String) (row : AuditRow) : Tx Unit := do
  let fresh ← query fun db => db.auditEvents.rows.all fun entry =>
    (entry.2.tenantID, entry.2.action, entry.2.idempotencyKey) ≠
      (row.tenantID, row.action, row.idempotencyKey)
  require fresh (.wrapped "insert audit event" (.constraint "audit_events"))
  insert auditEvents (.wrapped "insert audit event" (.constraint "audit_events")) id row

def insertControlActionWithEvent (action : ControlAction) (event : AuditEvent) : Tx Unit := do
  require action.response.encodable (.text "encode control response")
  insert operationRequests (.wrapped "insert control action" (.constraint "operation_requests"))
    (action.tenantID, action.action, action.idempotencyKey) {
      actor := action.actor
      reason := action.reason
      requestDigest := action.requestDigest
      committedAt := timeToDB action.committedAt
      targetType := action.targetType
      targetID := action.targetID
      targetState := action.targetState
      targetVersion := if action.targetVersion > 0 then some action.targetVersion else none
      response := action.response }
  insertAudit event.id {
    tenantID := action.tenantID
    idempotencyKey := action.idempotencyKey
    action := event.action
    actor := event.actor
    occurredAt := timeToDB event.occurredAt
    targetType := event.targetType
    targetID := event.targetID
    details := event.details }

def insertControlAction (sha256 : Hash) (action : ControlAction) : Tx Unit :=
  insertControlActionWithEvent action (newAuditEvent sha256 action)

def recordControlAction (sha256 : Hash) (request : ControlAction) (now : Time) : Tx Bool := do
  let action := { request with tenantID := tenantOrDefault request.tenantID, committedAt := now }
  match ← readControlAction action.tenantID action.idempotencyKey action.action
      action.requestDigest with
  | some _ => return true
  | none => do
    insertControlAction sha256 action
    return false

def emptyAuditEvent : AuditEvent where
  id := ""
  tenantID := ""
  action := ""
  actor := ""
  occurredAt := zeroTime
  targetType := ""
  targetID := ""
  details := []

def Response.toEvent : Response → AuditEvent
  | .audit value => value
  | _ => emptyAuditEvent

def recordOperatorAction (sha256 : Hash) (request : ControlAction) (now : Time) :
    Tx (AuditEvent × Bool) := do
  let action := { request with tenantID := tenantOrDefault request.tenantID, committedAt := now }
  match ← readControlAction action.tenantID action.idempotencyKey action.action
      action.requestDigest with
  | some response => return (response.toEvent, true)
  | none => do
    let event := newAuditEvent sha256 action
    insertControlActionWithEvent { action with response := .audit event } event
    return (event, false)

def submitJobOperation (sha256 : Hash) (options : Options) (submission : Submission)
    (entropy : Entropy) (now : Time) : Tx (Job × Bool) := do
  let spec := submission.job.normalize
  lift (validateIdempotency submission.idempotencyKey submission.requestDigest)
  match ← readControlAction spec.tenantID submission.idempotencyKey "job.submit"
      submission.requestDigest with
  | some response => return (response.toJob, true)
  | none => do
    let job ← admitJob options .text spec submission.actor entropy now
    insertControlAction sha256 {
      tenantID := job.tenantID
      idempotencyKey := submission.idempotencyKey
      action := "job.submit"
      actor := submission.actor
      requestDigest := submission.requestDigest
      committedAt := now
      targetType := "job"
      targetID := job.id
      targetState := some job.state
      targetVersion := job.stateVersion
      response := .submitted job
      details := [("queue", job.queue), ("tenant_id", job.tenantID)] }
    return (job, false)

def scopedKey (sha256 : Hash) (tenantID action key : String) : String :=
  hexDigest sha256 (tenantID ++ "\x00" ++ action ++ "\x00" ++ key)

def insertDag (id : String) (row : DagRow) : Tx Unit := do
  let fresh ← query fun db =>
    db.dagRuns.rows.all fun entry => entry.2.idempotencyKey ≠ row.idempotencyKey
  require fresh (.wrapped "insert DAG" (.constraint "dag_runs"))
  insert dagRuns (.wrapped "insert DAG" (.constraint "dag_runs")) id row

structure DagNode where
  jobID : String
  key : String
  name : String

def insertDagNode (dagID : String) (node : DagNode) : Tx Unit := do
  let valid ← query fun db => (db.jobs.get? node.jobID).isSome &&
    db.dagJobs.rows.all fun entry => entry.1.2 ≠ node.jobID &&
      (entry.1.1 ≠ dagID || entry.2.nodeKey ≠ node.key)
  require valid (.wrapped "insert DAG node" (.constraint "dag_jobs"))
  insert dagJobs (.wrapped "insert DAG node" (.constraint "dag_jobs")) (dagID, node.jobID)
    ⟨node.key, node.name⟩

def dagNode (job : Job) (node : WorkflowNode) : DagNode := ⟨job.id, node.key, node.job.name⟩

def Response.toDag : Response → String × List Job
  | .dag id values => (id, values)
  | _ => ("", [])

def submitDagOperation (sha256 : Hash) (options : Options) (dagID : String)
    (submission : WorkflowSubmission) (entropy : Nat → Entropy) (now : Time) :
    Tx ((String × List Job) × Bool) := do
  let tenantID := tenantOrDefault submission.tenantID
  lift (validateIdempotency submission.idempotencyKey submission.requestDigest)
  match ← readControlAction tenantID submission.idempotencyKey "dag.submit"
      submission.requestDigest with
  | some response => return (response.toDag, true)
  | none => do
    let jobs ← admitWorkflow options .text tenantID submission.nodes submission.actor entropy now
    insertDag dagID ⟨tenantID, scopedKey sha256 tenantID "dag.submit" submission.idempotencyKey,
      submission.requestDigest, timeToDB now, timeToDB now⟩
    (List.zipWith dagNode jobs submission.nodes).forM (insertDagNode dagID)
    insertControlAction sha256 {
      tenantID := tenantID
      idempotencyKey := submission.idempotencyKey
      action := "dag.submit"
      actor := submission.actor
      requestDigest := submission.requestDigest
      committedAt := now
      targetType := "dag"
      targetID := dagID
      response := .dag dagID jobs
      details := [("tenant_id", tenantID)] }
    return ((dagID, jobs), false)

def saveDag (id tenantID idempotencyKey requestDigest : String) (nodes : List DagNode)
    (now : Time) : Tx Unit := do
  let existing ← query fun db =>
    db.dagRuns.rows.find? fun entry => entry.2.idempotencyKey = idempotencyKey
  match existing with
  | some entry =>
    require (entry.1 = id ∧ entry.2.requestDigest = requestDigest) .idempotencyConflict
  | none => do
    insertDag id ⟨tenantID, idempotencyKey, requestDigest, timeToDB now, timeToDB now⟩
    nodes.forM (insertDagNode id)

end RailYard.Store
