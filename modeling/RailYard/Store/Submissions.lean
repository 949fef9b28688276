import RailYard.Store.Statements
import RailYard.Library.Kahn

/-! Admission of single jobs and of workflows. A single job may depend on jobs
that exist; the nodes of a workflow depend on one another, and their graph is
checked before anything is written. -/
namespace RailYard.Store
open Library Library.Transaction Domain

structure Submission where
  job : JobSpec
  actor : String
  idempotencyKey : String
  requestDigest : String

structure WorkflowNode where
  key : String
  job : JobSpec

structure WorkflowSubmission where
  tenantID : String
  nodes : List WorkflowNode
  actor : String
  idempotencyKey : String
  requestDigest : String

/-- `unicode.IsSpace`. -/
def isSpace (char : Char) : Bool :=
  char.toNat ∈ [0x09, 0x0A, 0x0B, 0x0C, 0x0D, 0x20, 0x85, 0xA0, 0x1680, 0x2028, 0x2029, 0x202F,
    0x205F, 0x3000] || (0x2000 ≤ char.toNat && char.toNat ≤ 0x200A)

/-- Nothing is left after `strings.TrimSpace`. -/
def blank (text : String) : Bool := text.toList.all isSpace

def validateIdempotency (key digest : String) : Except Error Unit :=
  if blank key then .error (.text "idempotency key must not be empty")
  else if blank digest then .error (.text "request digest must not be empty")
  else .ok ()

def readIdempotency (tenantID key : String) (kind : RequestKind) (digest : String) :
    Tx (Option Response) := do
  match ← select idempotencyRequests (tenantID, key) with
  | none => return none
  | some row =>
    require (row.requestKind = kind ∧ row.requestDigest = digest) .idempotencyConflict
    return some row.response

def zeroJob : Job where
  id := ""
  tenantID := ""
  queue := ""
  priority := 0
  slotCost := 0
  payload := { type := .other "" }
  retry := ⟨0, false⟩
  state := .pending
  attemptNo := 0
  stateVersion := 0
  leaseGeneration := 0
  availableAt := zeroTime
  readySeq := 0
  createdAt := zeroTime
  updatedAt := zeroTime

/-- The job in a stored body; a body of another shape has no field to read. -/
def Response.toJob : Response → Job
  | .job value | .submitted value | .redriven value => value
  | _ => zeroJob

def Response.toJobs : Response → List Job
  | .jobs values | .dag _ values => values
  | _ => []

/-- Jobs carry the caller's availability time, which may not be encodable. All
other times of a body are write times. -/
def Response.encodable : Response → Bool
  | .job value | .submitted value | .redriven value => encodableTime value.availableAt
  | .jobs values | .dag _ values => values.all fun value => encodableTime value.availableAt
  | .cron trigger => encodableTime trigger.job.availableAt && encodableTime trigger.nextFireAt
  | .empty | .receipt _ | .audit _ => true

def recordIdempotency (tenantID key : String) (row : IdempotencyRow) : Tx Unit := do
  require row.response.encodable (.text "encode response")
  insert idempotencyRequests (.wrapped "record idempotency" (.constraint "idempotency_requests"))
    (tenantID, key) row

structure DependencyCheck where
  dependencies : List String := []
  allSucceeded : Bool := true
  failed : Bool := false

def checkDependency (db : Database) (tenantID : String) (check : DependencyCheck)
    (dependencyID : String) : Except Error DependencyCheck :=
  if dependencyID = "" then .error (.text "dependency ID must not be empty")
  else if dependencyID ∈ check.dependencies then
    .error (.about "dependency %q is repeated" [dependencyID])
  else
    match db.jobs.get? dependencyID with
    | none => .error (.wrapped "dependency %q" .notFound [dependencyID])
    | some parent =>
      if parent.tenantID ≠ tenantID then
        .error (.about "dependency %q belongs to another tenant" [dependencyID])
      else .ok {
        dependencies := check.dependencies ++ [dependencyID]
        allSucceeded := check.allSucceeded && parent.state = .succeeded
        failed := check.failed || parent.state.unsuccessful }

def validateExistingDependencies (db : Database) (tenantID : String)
    (dependencies : List String) : Except Error DependencyCheck :=
  dependencies.foldlM (checkDependency db tenantID) {}

def activeJobs (db : Database) (tenantID : String) : Nat :=
  (db.jobs.rows.filter fun entry => entry.2.tenantID = tenantID ∧ !entry.2.state.terminal).length

def ensureAdmission (options : Options) (tenantID : String) (incoming : Nat) : Tx Unit := do
  let _ ← insertIfAbsent tenantLimits tenantID
    { maxDepth := options.defaultTenantDepth, maxSlots := options.defaultTenantSlots }
  match ← select tenantLimits tenantID with
  | none => throw (.wrapped "read tenant admission" .notFound)
  | some limits =>
    let active ← query fun db => activeJobs db tenantID
    require (¬(limits.maxDepth > 0 ∧ (active + incoming : Int) > limits.maxDepth)) .queueFull

def ensureQueue (tenantID queue : String) (now : Time) : Tx Unit := do
  let _ ← insertIfAbsent queueState (tenantID, queue) { updatedAt := timeToDB now }

def newJob (id : String) (spec : JobSpec) (availableAt : Time) (readySeq : Int) (now : Time) :
    Job where
  id := id
  tenantID := spec.tenantID
  queue := spec.queue
  priority := spec.priority
  slotCost := spec.slotCost
  payload := spec.payload
  retry := spec.retry
  state := .pending
  attemptNo := 0
  stateVersion := 1
  leaseGeneration := 0
  availableAt := availableAt
  readySeq := readySeq
  createdAt := now
  updatedAt := now

/-- The row of a job that is inserted; the execution key is the job's own ID. -/
def Job.toRow (job : Job) : JobRow where
  tenantID := job.tenantID
  queueName := job.queue
  priority := job.priority
  slotCost := job.slotCost
  payload := job.payload
  retry := job.retry
  state := job.state
  attemptNo := job.attemptNo
  stateVersion := job.stateVersion
  leaseGeneration := job.leaseGeneration
  availableAt := timeToDB job.availableAt
  readySeq := job.readySeq
  recoveryPending := false
  executionKey := job.id
  createdAt := timeToDB job.createdAt
  updatedAt := timeToDB job.updatedAt
  terminalAt := job.terminalAt.map timeToDB
  failure := job.failure

def insertJob (job : Job) : Tx Unit := do
  require (0 < job.slotCost) (.wrapped "insert job" (.constraint "jobs"))
  insert jobs (.wrapped "insert job" (.constraint "jobs")) job.id (Job.toRow job)

def insertDependency (context : String) (jobID dependsOnID : String) : Tx Unit := do
  require (jobID ≠ dependsOnID) (.wrapped context (.constraint "job_dependencies"))
  insert jobDependencies (.wrapped context (.constraint "job_dependencies"))
    (jobID, dependsOnID) ()

def availability (spec : JobSpec) (now : Time) : Time :=
  if spec.availableAt = zeroTime then now else spec.availableAt

/-- A new job is dead on arrival when one of its dependencies has failed. -/
def Job.failedUpstream (job : Job) (failed : Bool) (now : Time) : Job :=
  if failed then
    { job with
      state := .deadLetter
      terminalAt := some now
      failure := some upstreamFailed
      readySeq := 0 }
  else job

/-- The body that `SubmitJob` and `SubmitJobOperation` share. -/
def admitJob (options : Options) (storage : StorageClass) (spec : JobSpec) (actor : String)
    (entropy : Entropy) (now : Time) : Tx Job := do
  lift ((spec.validate options.maxSlotCost options.allowShell).mapError
    (.wrapped "validate job"))
  let found ← query fun db => validateExistingDependencies db spec.tenantID spec.dependsOn
  let check ← lift found
  ensureAdmission options spec.tenantID 1
  ensureQueue spec.tenantID spec.queue now
  let readySeq ← readySeqIf (check.allSucceeded ∧ availability spec now ≤ now)
  let job := Job.failedUpstream
    (newJob (newID entropy) spec (availability spec now) readySeq now) check.failed now
  insertJob job
  check.dependencies.forM (insertDependency "insert job dependency" job.id)
  addEvent storage job.id .jobAdmitted job.state job.stateVersion now
    [("actor", .text actor), ("ready_seq", .number job.readySeq)]
  onlyIf (check.failed = true) (do
    insertCanonicalCompletion job.id job.state job.stateVersion 0 "" job.failure now
    insertDeadLetter job.id job.failure now)
  return job

def submitJob (options : Options) (submission : Submission) (entropy : Entropy) (now : Time) :
    Tx (Job × Bool) := do
  let spec := submission.job.normalize
  lift (validateIdempotency submission.idempotencyKey submission.requestDigest)
  match ← readIdempotency spec.tenantID submission.idempotencyKey .job
      submission.requestDigest with
  | some response => return (response.toJob, true)
  | none => do
    let job ← admitJob options .blob spec submission.actor entropy now
    recordIdempotency spec.tenantID submission.idempotencyKey
      ⟨.job, submission.requestDigest, some job.id, .job job, timeToDB now⟩
    return (job, false)

def checkKeys (seen : List String) : List WorkflowNode → Except Error Unit
  | [] => .ok ()
  | node :: rest =>
    if blank node.key then .error (.text "workflow node key must not be empty")
    else if node.key ∈ seen then .error (.about "workflow node key %q is repeated" [node.key])
    else checkKeys (node.key :: seen) rest

/-- The indexes of a node's parents, in the order the node lists them. -/
def resolveParents (keys : List String) (nodeKey : String) (seen : List Nat) :
    List String → Except Error (List Nat)
  | [] => .ok seen
  | parentKey :: rest =>
    match keys.findIdx? (· = parentKey) with
    | none =>
      .error (.about "workflow node %q depends on unknown node %q" [nodeKey, parentKey])
    | some parent =>
      if parent ∈ seen then
        .error (.about "workflow node %q repeats dependency %q" [nodeKey, parentKey])
      else resolveParents keys nodeKey (seen ++ [parent]) rest

def resolveNode (options : Options) (tenantID : String) (keys : List String)
    (node : WorkflowNode) : Except Error (JobSpec × List Nat) := do
  let spec := ({ node.job with tenantID := tenantID } : JobSpec).normalize
  (spec.validate options.maxSlotCost options.allowShell).mapError
    fun cause => .wrapped "validate workflow node %q" cause [node.key]
  let parents ← resolveParents keys node.key [] spec.dependsOn
  return (spec, parents)

def validateWorkflow (options : Options) (tenantID : String) (nodes : List WorkflowNode) :
    Except Error (List (JobSpec × List Nat)) :=
  if nodes.isEmpty then .error (.text "workflow must contain at least one node")
  else do
    checkKeys [] nodes
    let resolved ← nodes.mapM' (resolveNode options tenantID (nodes.map WorkflowNode.key))
    if Kahn.visited (resolved.map Prod.snd) ≠ nodes.length then .error .cycleDetected
    else .ok resolved

def admitNode (tenantID : String) (now : Time) (id : String) (spec : JobSpec)
    (parents : List Nat) : Tx Job := do
  ensureQueue tenantID spec.queue now
  let readySeq ← readySeqIf (parents.isEmpty ∧ availability spec now ≤ now)
  let job := newJob id spec (availability spec now) readySeq now
  insertJob job
  return job

def admitNodes (tenantID : String) (now : Time) (entropy : Nat → Entropy) (index : Nat) :
    List (JobSpec × List Nat) → Tx (List Job)
  | [] => return []
  | (spec, parents) :: rest => do
    let job ← admitNode tenantID now (newID (entropy index)) spec parents
    let jobs ← admitNodes tenantID now entropy (index + 1) rest
    return job :: jobs

/-- The edges of a workflow between the IDs of its nodes, child first. -/
def workflowEdges (entropy : Nat → Entropy) (dependencies : List (List Nat)) :
    List (String × String) :=
  dependencies.zipIdx.flatMap fun node =>
    node.1.map fun parent => (newID (entropy node.2), newID (entropy parent))

/-- The body that `SubmitWorkflow` and `SubmitDAGOperation` share. -/
def admitWorkflow (options : Options) (storage : StorageClass) (tenantID : String)
    (nodes : List WorkflowNode) (actor : String) (entropy : Nat → Entropy) (now : Time) :
    Tx (List Job) := do
  let resolved ← lift (validateWorkflow options tenantID nodes)
  ensureAdmission options tenantID resolved.length
  let jobs ← admitNodes tenantID now entropy 0 resolved
  (workflowEdges entropy (resolved.map Prod.snd)).forM fun edge =>
    insertDependency "insert workflow dependency" edge.1 edge.2
  jobs.forM fun job =>
    addEvent storage job.id .jobAdmitted job.state job.stateVersion now
      [("actor", .text actor), ("ready_seq", .number job.readySeq)]
  return jobs

def tenantOrDefault (tenantID : String) : String := if tenantID = "" then "default" else tenantID

def submitWorkflow (options : Options) (submission : WorkflowSubmission)
    (entropy : Nat → Entropy) (now : Time) : Tx (List Job × Bool) := do
  let tenantID := tenantOrDefault submission.tenantID
  lift (validateIdempotency submission.idempotencyKey submission.requestDigest)
  match ← readIdempotency tenantID submission.idempotencyKey .workflow
      submission.requestDigest with
  | some response => return (response.toJobs, true)
  | none => do
    let jobs ← admitWorkflow options .blob tenantID submission.nodes submission.actor entropy now
    recordIdempotency tenantID submission.idempotencyKey
      ⟨.workflow, submission.requestDigest, none, .jobs jobs, timeToDB now⟩
    return (jobs, false)

end RailYard.Store
