import RailYard.Store.Statements
import RailYard.Library.Closure

/-! What happens to a job without its worker: promotion when its time has come,
recovery of expired leases, activation by its last parent and failure with any
of its ancestors. Each of these reads a list of jobs first and then updates
them one by one under the versions it has read. -/
namespace RailYard.Store
open Library Library.Transaction Domain

/-- No parent is in a state other than `SUCCEEDED`. -/
def parentsSucceeded (db : Database) (jobID : String) : Bool :=
  db.jobDependencies.keys.all fun edge =>
    edge.1 ≠ jobID || match db.jobs.get? edge.2 with
      | some parent => parent.state = .succeeded
      | none => true

/-- `ORDER BY time, id`. -/
def orderByTime {ρ : Type} (time : String × ρ → Int) (rows : List (String × ρ)) :
    List (String × ρ) :=
  rows.insertionSort fun a b => time a < time b ∨ (time a = time b ∧ ¬b.1 < a.1)

def orderByID {ρ : Type} (rows : List (String × ρ)) : List (String × ρ) :=
  rows.insertionSort fun a b => ¬b.1 < a.1

def isDue (db : Database) (now : Time) (entry : String × JobRow) : Bool :=
  (entry.2.state = .pending || entry.2.state = .retrying) && entry.2.readySeq = 0 &&
    entry.2.availableAt ≤ timeToDB now && parentsSucceeded db entry.1

def dueJobs (db : Database) (now : Time) (limit : Int) : List (String × JobRow) :=
  (orderByTime (fun entry => entry.2.availableAt) (db.jobs.rows.filter (isDue db now))).take
    limit.toNat

def promoteJob (now : Time) (job : String × JobRow) : Tx Unit := do
  let readySeq ← nextReadySeq
  let nextVersion := job.2.stateVersion + 1
  let affected ← update jobs job.1
    (fun row => row.state = job.2.state && row.stateVersion = job.2.stateVersion &&
      row.readySeq = 0)
    (fun row => { row with
      state := .pending
      stateVersion := nextVersion
      readySeq := readySeq
      updatedAt := timeToDB now })
  require affected (.about "due job %q changed during promotion" [job.1])
  appendEvent job.1 .jobPromoted .pending nextVersion now [("ready_seq", .number readySeq)]

def promoteDue (now : Time) (limit : Int) : Tx Nat := do
  let due ← query fun db => dueJobs db now limit
  due.forM (promoteJob now)
  return due.length

def isActivated (db : Database) (now : Time) (parentID : String) (entry : String × JobRow) :
    Bool :=
  (entry.1, parentID) ∈ db.jobDependencies.keys && entry.2.state = .pending &&
    entry.2.readySeq = 0 && entry.2.availableAt ≤ timeToDB now && parentsSucceeded db entry.1

def activatedChildren (db : Database) (now : Time) (parentID : String) :
    List (String × JobRow) :=
  orderByID (db.jobs.rows.filter (isActivated db now parentID))

def activateChild (parentID : String) (now : Time) (child : String × JobRow) : Tx Unit := do
  let readySeq ← nextReadySeq
  let nextVersion := child.2.stateVersion + 1
  let affected ← update jobs child.1
    (fun row => row.state = .pending && row.readySeq = 0 &&
      row.stateVersion = child.2.stateVersion)
    (fun row => { row with
      readySeq := readySeq
      stateVersion := nextVersion
      updatedAt := timeToDB now })
  require affected (.about "child job %q changed during activation" [child.1])
  appendEvent child.1 .dependencyReleased .pending nextVersion now
    [("parent_id", .text parentID), ("ready_seq", .number readySeq)]

def activateChildren (parentID : String) (now : Time) : Tx Unit := do
  let children ← query fun db => activatedChildren db now parentID
  children.forM (activateChild parentID now)

def dependencyEdges (db : Database) : List (String × String) :=
  db.jobDependencies.keys.map Prod.swap

def isFailing (db : Database) (parentID : String) (entry : String × JobRow) : Bool :=
  entry.1 ∈ Closure.descendants (dependencyEdges db) parentID && !entry.2.state.terminal

def failingDescendants (db : Database) (parentID : String) : List (String × JobRow) :=
  orderByID (db.jobs.rows.filter (isFailing db parentID))

/-- A descendant that holds a lease gives its slots back. Its attempt row is
left as it is. -/
def failDescendant (rootID : String) (now : Time) (child : String × JobRow) : Tx Unit := do
  onlyIf (child.2.state.leased = true)
    (releaseSlots child.2.tenantID child.2.queueName child.2.slotCost now)
  let nextVersion := child.2.stateVersion + 1
  let affected ← update jobs child.1
    (fun row => row.stateVersion = child.2.stateVersion && !row.state.terminal)
    (fun row => { row with
      state := .deadLetter
      stateVersion := nextVersion
      readySeq := 0
      updatedAt := timeToDB now
      terminalAt := some (timeToDB now)
      failure := some upstreamFailed })
  require affected (.about "descendant %q changed during propagation" [child.1])
  insertCanonicalCompletion child.1 .deadLetter nextVersion child.2.attemptNo ""
    (some upstreamFailed) now
  insertDeadLetter child.1 (some upstreamFailed) now
  appendEvent child.1 .upstreamFailed .deadLetter nextVersion now
    [("root_job_id", .text rootID)]

def failDescendants (parentID : String) (now : Time) : Tx Unit := do
  let descendants ← query fun db => failingDescendants db parentID
  descendants.forM (failDescendant parentID now)

structure ExpiredAttempt where
  attemptNo : Int
  attempt : AttemptRow
  job : JobRow

def expiredAttempt? (db : Database) (now : Time) (entry : (String × Int) × AttemptRow) :
    Option (String × ExpiredAttempt) :=
  match db.jobs.get? entry.1.1 with
  | none => none
  | some job =>
    if job.attemptNo = entry.1.2 ∧ job.leaseGeneration = entry.2.leaseGeneration ∧
        entry.2.state.isOpen ∧ entry.2.expiresAt ≤ timeToDB now ∧ job.state.leased then
      some (entry.1.1, ⟨entry.1.2, entry.2, job⟩)
    else none

def expiredLeases (db : Database) (now : Time) : List (String × ExpiredAttempt) :=
  orderByTime (fun entry => entry.2.attempt.expiresAt)
    (db.attempts.rows.filterMap (expiredAttempt? db now))

def ExpiredAttempt.exhausted (expired : ExpiredAttempt) : Bool :=
  expired.job.retry.maxAttempts ≤ expired.attemptNo

def leaseExpired : Failure :=
  { failureClass := "lease_expired", message := "worker lease expired before completion" }

def ExpiredAttempt.current (expired : ExpiredAttempt) (row : JobRow) : Bool :=
  row.attemptNo = expired.attemptNo && row.leaseGeneration = expired.attempt.leaseGeneration &&
    row.stateVersion = expired.job.stateVersion && row.state.leased

def requeueExpired (now : Time) (jobID : String) (expired : ExpiredAttempt) : Tx Unit := do
  let nextVersion := expired.job.stateVersion + 1
  let readySeq ← nextReadySeq
  let affected ← update jobs jobID expired.current
    (fun row => { row with
      state := .pending
      stateVersion := nextVersion
      availableAt := timeToDB now
      readySeq := readySeq
      recoveryPending := true
      updatedAt := timeToDB now
      failure := some leaseExpired })
  require affected .staleLease
  appendEvent jobID .leaseReaped .pending nextVersion now
    [("attempt_no", .number expired.attemptNo),
      ("generation", .number expired.attempt.leaseGeneration),
      ("ready_seq", .number readySeq)]

def deadLetterExpired (now : Time) (jobID : String) (expired : ExpiredAttempt) : Tx Unit := do
  let nextVersion := expired.job.stateVersion + 1
  let affected ← update jobs jobID expired.current
    (fun row => { row with
      state := .deadLetter
      stateVersion := nextVersion
      readySeq := 0
      updatedAt := timeToDB now
      terminalAt := some (timeToDB now)
      failure := some leaseExpired })
  require affected .staleLease
  insertCanonicalCompletion jobID .deadLetter nextVersion expired.attemptNo ""
    (some leaseExpired) now
  insertDeadLetter jobID (some leaseExpired) now
  appendEvent jobID .leaseReaped .deadLetter nextVersion now
    [("attempt_no", .number expired.attemptNo),
      ("generation", .number expired.attempt.leaseGeneration)]

def reapAttempt (now : Time) (entry : String × ExpiredAttempt) : Tx Unit := do
  let _ ← update attempts (entry.1, entry.2.attemptNo)
    (fun row => row.leaseGeneration = entry.2.attempt.leaseGeneration && row.state.isOpen)
    (fun row => { row with
      state := .expired, completedAt := some (timeToDB now), failure := some leaseExpired })
  releaseSlots entry.2.job.tenantID entry.2.job.queueName entry.2.job.slotCost now
  if entry.2.exhausted then do
    deadLetterExpired now entry.1 entry.2
    failDescendants entry.1 now
  else requeueExpired now entry.1 entry.2

def reapedLease (now : Time) (entry : String × ExpiredAttempt) : ReapedLease where
  jobID := entry.1
  oldWorkerID := entry.2.attempt.workerID
  generation := entry.2.attempt.leaseGeneration
  expiredAt := timeFromDB entry.2.attempt.expiresAt
  nextAvailableAt := if entry.2.exhausted then zeroTime else now

def reapExpired (now : Time) (limit : Int) : Tx (List ReapedLease) := do
  let expired ← query fun db => (expiredLeases db now).take limit.toNat
  expired.forM (reapAttempt now)
  return expired.map (reapedLease now)

end RailYard.Store
