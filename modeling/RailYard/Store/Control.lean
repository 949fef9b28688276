import RailYard.Store.Operations

/-! Operator control of single jobs: cancelling, forcing a state, and running a
finished job again as a new one. -/
namespace RailYard.Store
open Library.Transaction Domain

structure JobControlCommand where
  jobID : String
  receiptAction : String
  auditAction : String
  actor : String
  reason : String
  idempotencyKey : String
  requestDigest : String
  nextState : JobState
  release : Bool := false

structure OperatorCommand where
  jobID : String
  actor : String
  reason : String := ""
  idempotencyKey : String
  requestDigest : String

/-- Force actions are free text on the wire; three of them are known. -/
inductive ForceAction where
  | release
  | fail
  | deadLetter
  | other (name : String) (unknown : name ∉ ["release", "fail", "dead_letter"])

def ForceAction.text : ForceAction → String
  | .release => "release"
  | .fail => "fail"
  | .deadLetter => "dead_letter"
  | .other name _ => name

def ForceAction.releases : ForceAction → Bool
  | .release => true
  | _ => false

/-- Any action that is not known leaves the state at its initial `PENDING`. -/
def ForceAction.state : ForceAction → JobState
  | .fail => .failed
  | .deadLetter => .deadLetter
  | .release | .other _ _ => .pending

def cancelCommand (command : OperatorCommand) : JobControlCommand where
  jobID := command.jobID
  receiptAction := "cancel"
  auditAction := "job.cancel"
  actor := command.actor
  reason := command.reason
  idempotencyKey := command.idempotencyKey
  requestDigest := command.requestDigest
  nextState := .failed

def forceCommand (command : OperatorCommand) (action : ForceAction) : JobControlCommand where
  jobID := command.jobID
  receiptAction := action.text
  auditAction := "job.force." ++ action.text
  actor := command.actor
  reason := command.reason
  idempotencyKey := command.idempotencyKey
  requestDigest := command.requestDigest
  nextState := action.state
  release := action.releases

def operatorFailure (action reason : String) : Failure :=
  { failureClass := "operator_" ++ action, message := reason }

def emptyReceipt : ActionReceipt where
  jobID := ""
  action := ""
  state := .pending
  stateVersion := 0
  actor := ""
  committedAt := zeroTime

def Response.toReceipt : Response → ActionReceipt
  | .receipt value => value
  | _ => emptyReceipt

def fenceControlled (command : JobControlCommand) (job : JobRow) (now : Time) : Tx Unit := do
  let affected ← update attempts (command.jobID, job.attemptNo) (fun row => row.state.isOpen)
    (fun row => { row with
      state := .expired
      completedAt := some (timeToDB now)
      failure := some (row.failure.getD (operatorFailure command.receiptAction command.reason)) })
  require affected .staleLease
  releaseSlots job.tenantID job.queueName job.slotCost now

def JobControlCommand.failure (command : JobControlCommand) : Option Failure :=
  if command.release then none
  else some (operatorFailure command.receiptAction command.reason)

def controlJob (command : JobControlCommand) (job : JobRow) (now : Time) : Tx Unit := do
  onlyIf (job.state.leased = true) (fenceControlled command job now)
  let nextVersion := job.stateVersion + 1
  let readySeq ← readySeqIf command.release
  let affected ← update jobs command.jobID
    (fun row => row.stateVersion = job.stateVersion && !row.state.terminal)
    (fun row => { row with
      state := command.nextState
      stateVersion := nextVersion
      availableAt := timeToDB now
      readySeq := readySeq
      recoveryPending := command.release && job.state.leased
      updatedAt := timeToDB now
      terminalAt := nullableTime now (!command.release)
      failure := command.failure })
  require affected .conflict
  onlyIf (command.release = false) (do
    insertCanonicalCompletion command.jobID command.nextState nextVersion job.attemptNo ""
      command.failure now
    onlyIf (command.nextState = .deadLetter)
      (insertDeadLetter command.jobID command.failure now))
  appendEvent command.jobID (.operator command.receiptAction) command.nextState nextVersion now
    [("actor", .text command.actor), ("reason", .text command.reason)]
  onlyIf (command.release = false) (failDescendants command.jobID now)

def applyJobControl (sha256 : Hash) (command : JobControlCommand) (now : Time) :
    Tx ActionReceipt := do
  match ← select jobs command.jobID with
  | none => throw .notFound
  | some job =>
    match ← readControlAction job.tenantID command.idempotencyKey command.auditAction
        command.requestDigest with
    | some response => return { response.toReceipt with duplicate := true }
    | none => do
      require (job.state.terminal = false) .terminalJob
      controlJob command job now
      let receipt : ActionReceipt := {
        jobID := command.jobID
        action := command.receiptAction
        state := command.nextState
        stateVersion := job.stateVersion + 1
        actor := command.actor
        committedAt := now }
      insertControlAction sha256 {
        tenantID := job.tenantID
        idempotencyKey := command.idempotencyKey
        action := command.auditAction
        actor := command.actor
        reason := command.reason
        requestDigest := command.requestDigest
        committedAt := now
        targetType := "job"
        targetID := command.jobID
        targetState := some command.nextState
        targetVersion := job.stateVersion + 1
        response := .receipt receipt
        details := [("reason", command.reason), ("state", stateText command.nextState)] }
      return receipt

/-- A job with the original's specification, ready at once and without
dependencies. -/
def cloneJob (options : Options) (original : Job) (entropy : Entropy) (now : Time) : Tx Job := do
  ensureAdmission options original.tenantID 1
  ensureQueue original.tenantID original.queue now
  let readySeq ← nextReadySeq
  let job := newJob (newID entropy) {
    tenantID := original.tenantID
    queue := original.queue
    priority := original.priority
    slotCost := original.slotCost
    payload := original.payload
    retry := original.retry } now readySeq now
  insertJob job
  appendEvent job.id .jobAdmitted job.state job.stateVersion now
    [("ready_seq", .number readySeq), ("source_job_id", .text original.id)]
  return job

def linkRedriven (jobID createdID : String) : Tx Unit := do
  let affected ← update deadLetters jobID (fun row => row.redrivenJobID.isNone)
    (fun row => { row with redrivenJobID := some createdID })
  require affected .deadLetterRedriven

def redriveAction : String := "dead_letter.redrive"

def redriveDeadLetterControl (sha256 : Hash) (options : Options) (command : OperatorCommand)
    (entropy : Entropy) (now : Time) : Tx (Job × Bool) := do
  match ← select deadLetters command.jobID with
  | none => throw .notFound
  | some deadLetter =>
    match ← select jobs command.jobID with
    | none => throw (.wrapped "read redrive source" .notFound)
    | some row =>
      let original := scanJob command.jobID row
      match ← readControlAction original.tenantID command.idempotencyKey redriveAction
          command.requestDigest with
      | some response => return (response.toJob, true)
      | none => do
        require deadLetter.redrivenJobID.isNone .deadLetterRedriven
        let created ← cloneJob options original entropy now
        linkRedriven command.jobID created.id
        appendEvent command.jobID (.operator "redrive") .deadLetter original.stateVersion now
          [("actor", .text command.actor), ("created_job_id", .text created.id)]
        insertControlAction sha256 {
          tenantID := original.tenantID
          idempotencyKey := command.idempotencyKey
          action := redriveAction
          actor := command.actor
          requestDigest := command.requestDigest
          committedAt := now
          targetType := "dead_letter"
          targetID := command.jobID
          targetState := some created.state
          targetVersion := created.stateVersion
          response := .redriven created
          details := [("created_job_id", created.id)] }
        return (created, false)

def retryJobControl (sha256 : Hash) (options : Options) (command : OperatorCommand)
    (entropy : Entropy) (now : Time) : Tx (Job × Bool) := do
  match ← select jobs command.jobID with
  | none => throw .notFound
  | some row =>
    let original := scanJob command.jobID row
    match ← readControlAction original.tenantID command.idempotencyKey "job.retry"
        command.requestDigest with
    | some response => return (response.toJob, true)
    | none => do
      require (original.state.terminal = true) .conflict
      let created ← cloneJob options original entropy now
      appendEvent command.jobID (.operator "retry") original.state original.stateVersion now
        [("actor", .text command.actor), ("created_job_id", .text created.id)]
      insertControlAction sha256 {
        tenantID := original.tenantID
        idempotencyKey := command.idempotencyKey
        action := "job.retry"
        actor := command.actor
        requestDigest := command.requestDigest
        committedAt := now
        targetType := "job"
        targetID := command.jobID
        targetState := some created.state
        targetVersion := created.stateVersion
        response := .job created
        details := [("created_job_id", created.id)] }
      return (created, false)

/-- `json_set(payload_json, '$.actor', ?)`: the existing field or a new last one. -/
def setActor (actor : String) (payload : EventPayload) : EventPayload :=
  if payload.any fun field => field.1 = "actor" then
    payload.map fun field => if field.1 = "actor" then (field.1, .text actor) else field
  else payload ++ [("actor", .text actor)]

def isAdmissionOf (jobID : String) (event : EventRow) : Bool :=
  event.jobID = jobID && event.eventType = .jobAdmitted

def attributeAdmission (jobID actor : String) : Tx Unit := do
  let count ← query fun db => (db.events.filter (isAdmissionOf jobID)).length
  mutate fun db => { db with
    events := db.events.map fun event =>
      if isAdmissionOf jobID event then
        { event with payload := setActor actor event.payload, storage := .blob }
      else event }
  require (count = 1) (.text "redriven job admission event is missing")

def normalizePayloads (jobID : String) : Tx Unit :=
  mutate fun db => { db with
    events := db.events.map fun event =>
      if event.jobID = jobID then { event with storage := .blob } else event }

def redriveDeadLetter (sha256 : Hash) (options : Options) (jobID idempotencyKey : String)
    (requestDigest contextActor : String) (entropy : Entropy) (now : Time) :
    Tx (Job × Bool) := do
  let actor := if contextActor = "" then "api" else contextActor
  match ← select jobs jobID with
  | none => throw .notFound
  | some row =>
    let original := scanJob jobID row
    match ← select deadLetters jobID with
    | none => throw .notFound
    | some deadLetter =>
      match ← readControlAction original.tenantID idempotencyKey redriveAction
          requestDigest with
      | some response => return (response.toJob, true)
      | none => do
        require deadLetter.redrivenJobID.isNone .deadLetterRedriven
        let created ← cloneJob options original entropy now
        attributeAdmission created.id actor
        linkRedriven jobID created.id
        appendActorEvent jobID (.operator "redrive") original.state original.stateVersion now
          [("actor", .text actor), ("created_job_id", .text created.id)]
        normalizePayloads jobID
        insertControlAction sha256 {
          tenantID := original.tenantID
          idempotencyKey := idempotencyKey
          action := redriveAction
          actor := actor
          requestDigest := requestDigest
          committedAt := now
          targetType := "dead_letter"
          targetID := jobID
          targetState := some created.state
          targetVersion := created.stateVersion
          response := .redriven created
          details := [("actor", actor), ("created_job_id", created.id)] }
        return (created, false)

end RailYard.Store
