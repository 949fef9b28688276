import RailYard.Store.Statements

/-! The timings that the telemetry reads off the event log, one row for each
event. -/
namespace RailYard.Store
open Domain

structure TimingEvent where
  sequence : Int
  readyToLease : Option Int
  leaseRecovery : Option Int
  leaseToCompletion : Option Int
  endToEnd : Option Int

def durationBetween (origin : Option Int) (finish : Int) : Option Int :=
  origin.bind fun origin => if finish < origin then none else some (int64 (finish - origin))

/-- `$.attempt_no` of a payload, which is a number wherever it is there. -/
def attemptNumber (event : EventRow) : Option Int :=
  match event.payload.lookup "attempt_no" with
  | some (.number value) => some value
  | _ => none

def readying : List EventType :=
  [.jobAdmitted, .jobPromoted, .dependencyReleased, .leaseReaped, .operator "release"]

/-- The time of the last event before this one that made its job ready. -/
def readyTime (db : Database) (event : EventRow) : Option Int :=
  ((db.events.filter fun ready => ready.jobID = event.jobID ∧ ready.eventSeq < event.eventSeq ∧
    ready.eventType ∈ readying).map EventRow.occurredAt).max?

/-- When the attempt before `attemptNo` was lost to the reaper, if the job went back
to the queue then. -/
def recoveryOrigin (db : Database) (event : EventRow) (attemptNo : Int) : Option Int := do
  let previous ← db.attempts.get? (event.jobID, attemptNo - 1)
  let completedAt ← previous.completedAt
  if previous.state = .expired ∧ ∃ loss ∈ db.events, loss.jobID = event.jobID ∧
      loss.eventType = .leaseReaped ∧ loss.state = .pending ∧
      attemptNumber loss = some (attemptNo - 1) ∧ loss.occurredAt = completedAt then
    return completedAt
  else none

/-- The completion of the event's job, if it was committed at the event's time. -/
def completionAt (db : Database) (event : EventRow) : Option Int :=
  ((db.jobCompletions.get? event.jobID).map CompletionRow.committedAt).filter
    (· = event.occurredAt)

def timingEvent (db : Database) (event : EventRow) (job : JobRow) : TimingEvent :=
  let attempt := (attemptNumber event).bind fun attemptNo =>
    (db.attempts.get? (event.jobID, attemptNo)).map fun row => (attemptNo, row)
  let leased := attempt.filter fun _ => event.eventType = .leaseAcquired
  let ended := attempt.filter fun _ =>
    event.eventType = .jobCompleted ∨ event.eventType = .retryScheduled
  { sequence := event.eventSeq
    readyToLease := leased.bind fun found => durationBetween (readyTime db event) found.2.leasedAt
    leaseRecovery := leased.bind fun found =>
      durationBetween (recoveryOrigin db event found.1) found.2.leasedAt
    -- a time that is missing reads as zero
    leaseToCompletion := ended.bind fun found =>
      durationBetween (some found.2.leasedAt) (found.2.completedAt.getD 0)
    endToEnd := if event.state.terminal then
      (completionAt db event).bind (durationBetween (some job.createdAt)) else none }

def telemetryEvents (db : Database) (afterSequence limit : Int) : List TimingEvent :=
  ((db.events.filter fun event => afterSequence < event.eventSeq).filterMap fun event =>
    (db.jobs.get? event.jobID).map (timingEvent db event)).take limit.toNat

end RailYard.Store
