import RailYard.Library.Transaction
import RailYard.Domain.Lease
import RailYard.Scheduler.DecisionLog

/-! The database: one row type for each table and one record of tables. A
column that holds JSON holds the encoded value itself. Of the foreign keys the
schema declares, those whose target the writing transaction has just read or
inserted are not checked a second time. -/
namespace RailYard.Store
open Library Domain Scheduler

structure JobRow where
  tenantID : String
  queueName : String
  priority : Int
  slotCost : Int
  payload : Payload
  retry : RetryPolicy
  state : JobState
  attemptNo : Int
  stateVersion : Int
  leaseGeneration : Int
  availableAt : Int
  readySeq : Int
  recoveryPending : Bool
  executionKey : String
  createdAt : Int
  updatedAt : Int
  terminalAt : Option Int
  failure : Option Failure
  deriving DecidableEq

inductive AttemptState where
  | leased
  | running
  | succeeded
  | failed
  | expired
  deriving DecidableEq

def AttemptState.isOpen : AttemptState → Bool
  | .leased | .running => true
  | _ => false

structure AttemptRow where
  workerID : String
  leaseGeneration : Int
  tokenHash : String
  state : AttemptState
  leasedAt : Int
  heartbeatAt : Int
  expiresAt : Int
  startedAt : Option Int := none
  completedAt : Option Int := none
  failure : Option Failure := none
  completionRequestDigest : Option String := none
  receiptState : Option JobState := none
  receiptStateVersion : Option Int := none
  receiptCommittedAt : Option Int := none
  deriving DecidableEq

structure CompletionRow where
  state : JobState
  stateVersion : Int
  attemptNo : Int
  outputDigest : String
  failure : Option Failure
  committedAt : Int
  deriving DecidableEq

structure DeadLetterRow where
  failure : Failure
  createdAt : Int
  redrivenJobID : Option String := none
  deriving DecidableEq

structure TenantRow where
  maxDepth : Int
  maxSlots : Int
  activeSlots : Int := 0
  deriving DecidableEq

structure QueueRow where
  weight : Int := 1
  deficit : Int := 0
  activeSlots : Int := 0
  updatedAt : Int
  deriving DecidableEq

inductive EventType where
  | jobAdmitted
  | leaseAcquired
  | attemptStarted
  | jobCompleted
  | retryScheduled
  | jobPromoted
  | leaseReaped
  | dependencyReleased
  | upstreamFailed
  | operator (action : String)
  deriving DecidableEq

inductive Scalar where
  | number (value : Int)
  | text (value : String)
  deriving DecidableEq

abbrev EventPayload := List (String × Scalar)

inductive StorageClass where
  | text
  | blob
  deriving DecidableEq

structure EventRow where
  eventSeq : Int
  jobID : String
  eventType : EventType
  state : JobState
  stateVersion : Int
  occurredAt : Int
  payload : EventPayload
  storage : StorageClass
  deriving DecidableEq

structure ActionReceipt where
  jobID : String
  action : String
  state : JobState
  stateVersion : Int
  actor : String
  committedAt : Time
  duplicate : Bool := false
  deriving DecidableEq

structure AuditEvent where
  id : String
  tenantID : String
  action : String
  actor : String
  occurredAt : Time
  targetType : String
  targetID : String
  details : List (String × String)
  deriving DecidableEq

inductive Response where
  | empty
  | job (job : Job)
  | jobs (jobs : List Job)
  | cron (trigger : CronTrigger)
  | submitted (job : Job)
  | dag (dagID : String) (jobs : List Job)
  | receipt (receipt : ActionReceipt)
  | redriven (job : Job)
  | audit (event : AuditEvent)
  deriving DecidableEq

inductive RequestKind where
  | job
  | workflow
  | cron
  deriving DecidableEq

structure IdempotencyRow where
  requestKind : RequestKind
  requestDigest : String
  jobID : Option String
  response : Response
  createdAt : Int
  deriving DecidableEq

structure DecisionRow where
  previousHash : String
  hash : String
  record : Record
  createdAt : Int
  deriving DecidableEq

structure CronRow where
  tenantID : String
  expression : String
  job : JobSpec
  actor : String
  nextFireAt : Int
  enabled : Bool
  createdAt : Int
  updatedAt : Int
  deriving DecidableEq

structure TriggeredRow where
  jobID : String
  createdAt : Int
  deriving DecidableEq

structure OperationRow where
  actor : String
  reason : String
  requestDigest : String
  committedAt : Int
  targetType : String
  targetID : String
  targetState : Option JobState
  targetVersion : Option Int
  response : Response
  deriving DecidableEq

structure AuditRow where
  tenantID : String
  idempotencyKey : String
  action : String
  actor : String
  occurredAt : Int
  targetType : String
  targetID : String
  details : List (String × String)
  deriving DecidableEq

structure DagRow where
  tenantID : String
  idempotencyKey : String
  requestDigest : String
  createdAt : Int
  updatedAt : Int
  deriving DecidableEq

structure DagJobRow where
  nodeKey : String
  name : String
  deriving DecidableEq

structure WorkerRow where
  capacitySlots : Int
  registeredAt : Int
  lastHeartbeatAt : Int
  deriving DecidableEq

structure Database where
  jobs : Table String JobRow
  jobDependencies : Table (String × String) Unit
  attempts : Table (String × Int) AttemptRow
  jobCompletions : Table String CompletionRow
  idempotencyRequests : Table (String × String) IdempotencyRow
  tenantLimits : Table String TenantRow
  queueState : Table (String × String) QueueRow
  events : List EventRow
  decisionLog : Table Int DecisionRow
  deadLetters : Table String DeadLetterRow
  cronTriggers : Table String CronRow
  cronOccurrences : Table (String × Int) TriggeredRow
  redisDeliveries : Table (String × String × String) TriggeredRow
  readySeq : Int
  schedulerSeq : Int
  schedulerCursor : Int
  operationRequests : Table (String × String × String) OperationRow
  auditEvents : Table String AuditRow
  dagRuns : Table String DagRow
  dagJobs : Table (String × String) DagJobRow
  workers : Table String WorkerRow

def Database.empty : Database where
  jobs := .empty
  jobDependencies := .empty
  attempts := .empty
  jobCompletions := .empty
  idempotencyRequests := .empty
  tenantLimits := .empty
  queueState := .empty
  events := []
  decisionLog := .empty
  deadLetters := .empty
  cronTriggers := .empty
  cronOccurrences := .empty
  redisDeliveries := .empty
  readySeq := 0
  schedulerSeq := 0
  schedulerCursor := 0
  operationRequests := .empty
  auditEvents := .empty
  dagRuns := .empty
  dagJobs := .empty
  workers := .empty

abbrev Tx := Transaction Error Database

open Transaction (Field)

def jobs : Field Database String JobRow := ⟨Database.jobs, fun db table => { db with jobs := table }⟩

def jobDependencies : Field Database (String × String) Unit :=
  ⟨Database.jobDependencies, fun db table => { db with jobDependencies := table }⟩

def attempts : Field Database (String × Int) AttemptRow :=
  ⟨Database.attempts, fun db table => { db with attempts := table }⟩

def jobCompletions : Field Database String CompletionRow :=
  ⟨Database.jobCompletions, fun db table => { db with jobCompletions := table }⟩

def idempotencyRequests : Field Database (String × String) IdempotencyRow :=
  ⟨Database.idempotencyRequests, fun db table => { db with idempotencyRequests := table }⟩

def tenantLimits : Field Database String TenantRow :=
  ⟨Database.tenantLimits, fun db table => { db with tenantLimits := table }⟩

def queueState : Field Database (String × String) QueueRow :=
  ⟨Database.queueState, fun db table => { db with queueState := table }⟩

def decisionLog : Field Database Int DecisionRow :=
  ⟨Database.decisionLog, fun db table => { db with decisionLog := table }⟩

def deadLetters : Field Database String DeadLetterRow :=
  ⟨Database.deadLetters, fun db table => { db with deadLetters := table }⟩

def cronTriggers : Field Database String CronRow :=
  ⟨Database.cronTriggers, fun db table => { db with cronTriggers := table }⟩

def cronOccurrences : Field Database (String × Int) TriggeredRow :=
  ⟨Database.cronOccurrences, fun db table => { db with cronOccurrences := table }⟩

def redisDeliveries : Field Database (String × String × String) TriggeredRow :=
  ⟨Database.redisDeliveries, fun db table => { db with redisDeliveries := table }⟩

def operationRequests : Field Database (String × String × String) OperationRow :=
  ⟨Database.operationRequests, fun db table => { db with operationRequests := table }⟩

def auditEvents : Field Database String AuditRow :=
  ⟨Database.auditEvents, fun db table => { db with auditEvents := table }⟩

def dagRuns : Field Database String DagRow :=
  ⟨Database.dagRuns, fun db table => { db with dagRuns := table }⟩

def dagJobs : Field Database (String × String) DagJobRow :=
  ⟨Database.dagJobs, fun db table => { db with dagJobs := table }⟩

def workers : Field Database String WorkerRow :=
  ⟨Database.workers, fun db table => { db with workers := table }⟩

end RailYard.Store
