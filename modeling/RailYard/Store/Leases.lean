import RailYard.Store.Maintenance
import RailYard.Store.Scheduling
import RailYard.Domain.Backoff

/-! The worker's calls: registration, acquiring leases, starting, keeping and
completing them. Every call on a lease names it by job, attempt, worker,
generation and token. -/
namespace RailYard.Store
open Library.Transaction Domain Scheduler

def registerWorker (workerID : String) (capacitySlots : Int) (now : Time) : Tx Unit := do
  match ← select workers workerID with
  | none =>
    insert workers (.wrapped "insert worker registration" (.constraint "workers")) workerID
      ⟨capacitySlots, timeToDB now, timeToDB now⟩
  | some worker => do
    require (worker.capacitySlots = capacitySlots) .workerCapacityConflict
    let _ ← update workers workerID (fun _ => true)
      (fun row => { row with lastHeartbeatAt := max row.lastHeartbeatAt (timeToDB now) })

def heartbeatWorker (workerID : String) (now : Time) : Tx Unit := do
  let affected ← update workers workerID (fun _ => true)
    (fun row => { row with lastHeartbeatAt := max row.lastHeartbeatAt (timeToDB now) })
  require affected .notFound

structure AcquireRequest where
  workerID : String
  availableSlots : Int
  limit : Int
  leaseTTL : Int
  recoveryReserve : Int := 0

def AcquireRequest.early (request : AcquireRequest) : Option (Except Error (List Lease)) :=
  if request.workerID = "" then some (.error (.text "worker ID must not be empty"))
  else if request.availableSlots < 1 ∨ request.limit < 1 then some (.ok [])
  else if request.leaseTTL ≤ 0 then some (.error (.text "lease TTL must be positive"))
  else if request.recoveryReserve < 0 then
    some (.error (.text "recovery reserve must not be negative"))
  else none

def insertAttempt (jobID : String) (attemptNo : Int) (row : AttemptRow) : Tx Unit := do
  let fresh ← query fun db => db.attempts.rows.all fun entry =>
    entry.1.1 ≠ jobID || entry.2.leaseGeneration ≠ row.leaseGeneration
  require fresh
    (.wrapped "insert attempt for job %q" (.constraint "attempts") [jobID])
  insert attempts (.wrapped "insert attempt for job %q" (.constraint "attempts") [jobID])
    (jobID, attemptNo) row

def scheduleCandidate (sha256 : Hash) (request : AcquireRequest) (now : Time) (token : Entropy)
    (candidate : LeaseCandidate) : Tx Lease := do
  let reserved ← reserveSlots candidate.tenantID candidate.queue candidate.slotCost now
  require reserved (.about "scheduler capacity changed for job %q" [candidate.jobID])
  let attemptNo := candidate.attemptNo + 1
  let generation := candidate.generation + 1
  let stateVersion := candidate.stateVersion + 1
  let expiresAt := now + request.leaseTTL
  let affected ← update jobs candidate.jobID
    (fun row => row.state = .pending && 0 < row.readySeq &&
      row.stateVersion = candidate.stateVersion)
    (fun row => { row with
      state := .scheduled
      attemptNo := attemptNo
      leaseGeneration := generation
      stateVersion := stateVersion
      readySeq := 0
      recoveryPending := false
      updatedAt := timeToDB now })
  require affected
    (.about "lease candidate %q changed during acquisition" [candidate.jobID])
  insertAttempt candidate.jobID attemptNo {
    workerID := request.workerID
    leaseGeneration := generation
    tokenHash := tokenHash sha256 (newID token)
    state := .leased
    leasedAt := timeToDB now
    heartbeatAt := timeToDB now
    expiresAt := timeToDB expiresAt }
  appendEvent candidate.jobID .leaseAcquired .scheduled stateVersion now
    [("attempt_no", .number attemptNo), ("generation", .number generation),
      ("worker_id", .text request.workerID), ("expires_at", .number (timeToDB expiresAt))]
  return {
    jobID := candidate.jobID
    attemptNo := attemptNo
    generation := generation
    token := newID token
    workerID := request.workerID
    expiresAt := expiresAt
    readyAt := candidate.readyAt
    idempotencyKey := candidate.executionKey
    slotCost := candidate.slotCost
    payload := candidate.payload }

def grantLease (sha256 : Hash) (request : AcquireRequest) (now : Time) (plan : SchedulePlan)
    (token : Entropy) (grant : Grant) : Tx Lease :=
  match plan.candidates.find? fun candidate => candidate.jobID = grant.jobID with
  | none => throw (.about "scheduler selected unknown job %q" [grant.jobID])
  | some candidate => scheduleCandidate sha256 request now token candidate

def grantLeases (sha256 : Hash) (request : AcquireRequest) (now : Time) (plan : SchedulePlan)
    (tokens : Nat → Entropy) (index : Nat) : List Grant → Tx (List Lease)
  | [] => return []
  | grant :: rest => do
    let lease ← grantLease sha256 request now plan (tokens index) grant
    let leases ← grantLeases sha256 request now plan tokens (index + 1) rest
    return lease :: leases

def acquire (sha256 : Hash) (request : AcquireRequest) (tokens : Nat → Entropy) (now : Time) :
    Tx (List Lease) := do
  match ← buildSchedulePlan sha256 now request.availableSlots request.limit
      request.recoveryReserve with
  | none => return []
  | some plan => do
    let leases ← grantLeases sha256 request now plan tokens 0 plan.decision.grants
    persistSchedulePlan sha256 plan now
    return leases

/-- The joined row is the caller's own lease and the job's current one. -/
def fenced (sha256 : Hash) (workerID : String) (ref : LeaseRef) (attempt : AttemptRow)
    (job : JobRow) : Bool :=
  attempt.workerID = workerID && attempt.leaseGeneration = ref.generation &&
    attempt.tokenHash = tokenHash sha256 ref.token && job.attemptNo = ref.attemptNo &&
    job.leaseGeneration = attempt.leaseGeneration

def startAttempt (ref : LeaseRef) (stateVersion : Int) (now : Time) : Tx Unit := do
  let _ ← update attempts (ref.jobID, ref.attemptNo) (fun _ => true)
    (fun row => { row with state := .running, startedAt := some (timeToDB now) })
  let _ ← update jobs ref.jobID (fun row => row.stateVersion = stateVersion)
    (fun row => { row with
      state := .running, stateVersion := row.stateVersion + 1, updatedAt := timeToDB now })
  appendEvent ref.jobID .attemptStarted .running (stateVersion + 1) now
    [("attempt_no", .number ref.attemptNo), ("generation", .number ref.generation)]

def markRunningTx (sha256 : Hash) (workerID : String) (ref : LeaseRef) (now : Time) : Tx Unit := do
  let attempt ← select attempts (ref.jobID, ref.attemptNo)
  let job ← select jobs ref.jobID
  match attempt, job with
  | some attempt, some job =>
    require (fenced sha256 workerID ref attempt job) .staleLease
    require (timeToDB now < attempt.expiresAt) .staleLease
    if attempt.state = .running ∧ job.state = .running then
      return ()
    else do
      require (attempt.state = .leased ∧ job.state = .scheduled) .staleLease
      startAttempt ref job.stateVersion now
  | _, _ => throw .staleLease

/-- A batch goes on after a stale item and fails as a whole on any other error. -/
def batchTx {α β : Type} (context : String) (body : α → Tx β) (index : Nat) :
    List α → Tx (List (Except Error β))
  | [] => return []
  | item :: rest => do
    match ← attempt (body item) with
    | .ok value => do
      let results ← batchTx context body (index + 1) rest
      return .ok value :: results
    | .error error => do
      require (Error.is .staleLease error) (.wrapped context error [toString index])
      let results ← batchTx context body (index + 1) rest
      return .error error :: results

def maxAttemptStartBatchSize : Nat := 128

def maxCompletionBatchSize : Nat := 128

def markRunningBatch (sha256 : Hash) (workerID : String) (refs : List LeaseRef) (now : Time) :
    Tx (List (Except Error Unit)) :=
  batchTx "start batch item %d" (fun ref => markRunningTx sha256 workerID ref now) 0 refs

def heartbeatOne (sha256 : Hash) (workerID : String) (now : Time) (requestedExpiry : Int)
    (ref : LeaseRef) : Tx HeartbeatResult := do
  let job ← select jobs ref.jobID
  let accepted ← update attempts (ref.jobID, ref.attemptNo)
    (fun row => row.expiresAt > timeToDB now && row.state.isOpen && match job with
      | some job => fenced sha256 workerID ref row job && job.state.leased
      | none => false)
    (fun row => { row with
      heartbeatAt := timeToDB now, expiresAt := max row.expiresAt requestedExpiry })
  if accepted then do
    match ← select attempts (ref.jobID, ref.attemptNo) with
    | some row => return ⟨ref.jobID, true, timeFromDB row.expiresAt⟩
    | none => throw (.wrapped "read heartbeat expiry for job %q" .notFound [ref.jobID])
  else
    return ⟨ref.jobID, false, zeroTime⟩

def heartbeat (sha256 : Hash) (workerID : String) (refs : List LeaseRef) (now : Time)
    (leaseTTL : Int) : Tx (List HeartbeatResult) :=
  refs.mapM' (heartbeatOne sha256 workerID now (timeToDB (now + leaseTTL)))

/-- The failure a completion reports, or the one that stands in for it. -/
def reportedFailure (completion : Completion) : Option Failure :=
  if completion.success then none
  else some (completion.failure.getD {
    failureClass := "attempt_failed", message := "worker reported an unsuccessful attempt" })

def completionOutcome (sha256 : Hash) (completion : Completion) (retry : RetryPolicy)
    (now : Time) : Except Error (JobState × Time) :=
  if completion.success then .ok (.succeeded, now)
  else if completion.retryable && retry.retryable &&
      completion.attemptNo < retry.maxAttempts then
    (releaseAt sha256 now completion.jobID completion.attemptNo).map fun availableAt =>
      (.retrying, availableAt)
  else if completion.retryable then .ok (.deadLetter, now)
  else .ok (.failed, now)

def completedAttemptState (completion : Completion) : AttemptState :=
  if completion.success then .succeeded else .failed

/-- The receipt of an attempt that was completed before, if the same body was. -/
def duplicateReceipt (sha256 : Hash) (completion : Completion) (attempt : AttemptRow) :
    Except Error CompletionReceipt :=
  if attempt.completionRequestDigest = some (completionDigest sha256 completion) then
    match attempt.receiptState, attempt.receiptStateVersion, attempt.receiptCommittedAt with
    | some state, some stateVersion, some committedAt =>
      .ok ⟨completion.jobID, state, stateVersion, timeFromDB committedAt, true⟩
    | _, _, _ => .error .staleLease
  else .error .staleLease

def commitCompletion (sha256 : Hash) (completion : Completion) (job : JobRow)
    (nextState : JobState) (availableAt now : Time) : Tx CompletionReceipt := do
  let failure := reportedFailure completion
  let nextVersion := job.stateVersion + 1
  let affected ← update jobs completion.jobID
    (fun row => row.attemptNo = completion.attemptNo &&
      row.leaseGeneration = completion.generation &&
      row.stateVersion = job.stateVersion && row.state.leased)
    (fun row => { row with
      state := nextState
      stateVersion := nextVersion
      availableAt := timeToDB availableAt
      readySeq := 0
      updatedAt := timeToDB now
      terminalAt := nullableTime now nextState.terminal
      failure := failure })
  require affected .staleLease
  releaseSlots job.tenantID job.queueName job.slotCost now
  onlyIf (nextState.terminal = true)
    (insertCanonicalCompletion completion.jobID nextState nextVersion completion.attemptNo
      completion.outputDigest failure now)
  onlyIf (nextState = .deadLetter) (insertDeadLetter completion.jobID failure now)
  let _ ← update attempts (completion.jobID, completion.attemptNo)
    (fun row => row.completionRequestDigest.isNone)
    (fun row => { row with
      state := completedAttemptState completion
      completedAt := some (timeToDB now)
      failure := failure
      completionRequestDigest := some (completionDigest sha256 completion)
      receiptState := some nextState
      receiptStateVersion := some nextVersion
      receiptCommittedAt := some (timeToDB now) })
  appendEvent completion.jobID (if nextState.terminal then .jobCompleted else .retryScheduled)
    nextState nextVersion now
    ([("attempt_no", .number completion.attemptNo)] ++
      if timeToDB availableAt = 0 then [] else [("available_at", .number (timeToDB availableAt))])
  onlyIf (nextState = .succeeded) (activateChildren completion.jobID now)
  onlyIf (nextState.unsuccessful = true) (failDescendants completion.jobID now)
  return ⟨completion.jobID, nextState, nextVersion, now, false⟩

def applyCompletionTx (sha256 : Hash) (completion : Completion) (now : Time) :
    Tx CompletionReceipt := do
  let attempt ← select attempts (completion.jobID, completion.attemptNo)
  let job ← select jobs completion.jobID
  match attempt, job with
  | some attempt, some job =>
    require (attempt.workerID = completion.workerID ∧
      attempt.leaseGeneration = completion.generation ∧
      attempt.tokenHash = tokenHash sha256 completion.token) .staleLease
    if attempt.completionRequestDigest.isSome then
      lift (duplicateReceipt sha256 completion attempt)
    else do
      require (job.attemptNo = completion.attemptNo ∧
        job.leaseGeneration = completion.generation ∧ job.state.leased ∧
        attempt.state.isOpen ∧ timeToDB now < attempt.expiresAt) .staleLease
      let outcome ← lift (completionOutcome sha256 completion job.retry now)
      commitCompletion sha256 completion job outcome.1 outcome.2 now
  | _, _ => throw .staleLease

def completeBatch (sha256 : Hash) (completions : List Completion) (now : Time) :
    Tx (List (Except Error CompletionReceipt)) :=
  batchTx "complete batch item %d" (fun completion => applyCompletionTx sha256 completion now) 0
    completions

end RailYard.Store
