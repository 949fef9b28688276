import Mathlib.Data.List.Sort
import RailYard.Domain.Time
import RailYard.Library.Index
import RailYard.Library.JsonSyntax

/-! What the reconciliation oracle reads: the rows of a database as they stand,
with states as texts and nullable columns as options, the manifest of accepted
submissions, and the report it makes of them. Nothing is known about the rows. -/
namespace RailYard.Oracle
open Library Domain

structure AcceptedRecord where
  sequence : Int
  submissionKey : String
  jobID : String
  tenantID : String
  acceptedAt : Time

structure Options where
  expectedJobs : Int
  maxDetails : Int

structure JobRow where
  id : String
  tenantID : String
  queue : String
  slotCost : Int
  payloadJSON : String
  retryJSON : String
  state : String
  attemptNo : Int
  stateVersion : Int
  leaseGeneration : Int
  readySeq : Int
  executionKey : String
  createdAt : Int
  updatedAt : Int
  terminalAt : Option Int
  failureJSON : Option String

structure CompletionRow where
  jobID : String
  state : String
  stateVersion : Int
  attemptNo : Int
  outputDigest : String
  failureJSON : Option String
  committedAt : Int

structure AttemptRow where
  jobID : String
  attemptNo : Int
  workerID : String
  leaseGeneration : Int
  tokenHash : String
  state : String
  leasedAt : Int
  heartbeatAt : Int
  expiresAt : Int
  startedAt : Option Int
  completedAt : Option Int
  failureJSON : Option String
  completionRequestDigest : Option String
  receiptState : Option String
  receiptStateVersion : Option Int
  receiptCommittedAt : Option Int

structure EventRow where
  sequence : Int
  jobID : String
  type : String
  state : String
  stateVersion : Int
  occurredAt : Int
  payloadJSON : String

structure IdempotencyRow where
  tenantID : String
  submissionKey : String
  requestKind : String
  requestDigest : String
  jobID : Option String
  responseJSON : String
  createdAt : Int

structure DependencyRow where
  jobID : String
  dependsOn : String

structure TenantRow where
  tenantID : String
  maxDepth : Int
  maxSlots : Int
  activeSlots : Int

structure QueueRow where
  tenantID : String
  queue : String
  weight : Int
  activeSlots : Int

structure CounterRow where
  name : String
  value : Int

structure MigrationRow where
  version : Int
  name : String
  checksum : String
  appliedAt : Int

structure Snapshot where
  integrity : List String
  foreignKeys : List String
  journalMode : String
  synchronous : Int
  foreignKeysOn : Int
  busyTimeout : Int
  jobs : List JobRow
  completions : List CompletionRow
  attempts : List AttemptRow
  events : List EventRow
  idempotency : List IdempotencyRow
  dependencies : List DependencyRow
  tenants : List TenantRow
  queues : List QueueRow
  counters : List CounterRow
  migrations : List MigrationRow

structure Violation where
  check : String
  jobID : String
  message : String
  deriving DecidableEq

abbrev Audit := Findings Violation

def add (check jobID message : String) : Audit Unit := Findings.report ⟨check, jobID, message⟩

def addIf (condition : Prop) [Decidable condition] (check jobID message : String) : Audit Unit :=
  Findings.reportIf condition ⟨check, jobID, message⟩

structure Check where
  name : String
  passed : Bool
  violations : Nat

structure Counts where
  accepted : Nat
  jobs : Nat
  completions : Nat
  attempts : Nat
  attemptRepeats : Nat
  events : Nat
  idempotencyRows : Nat
  activeJobs : Nat
  activeAttempts : Nat
  slotReservations : Int
  stateCounts : List (String × Nat)

structure Report where
  passed : Bool
  expectedJobs : Int
  counts : Counts
  checks : List Check
  violationCount : Nat
  violations : List Violation
  detailsTruncated : Bool

def checkNames : List String :=
  ["sqlite_integrity", "sqlite_settings", "foreign_keys", "manifest", "canonical_ledger",
    "materialized_jobs", "idempotency", "attempts_and_leases", "event_log", "dag",
    "slot_accounting", "schema_migrations"]

def Violation.before (left right : Violation) : Prop :=
  if left.check ≠ right.check then left.check < right.check
  else if left.jobID ≠ right.jobID then left.jobID < right.jobID
  else left.message < right.message

instance : DecidableRel Violation.before := fun left right => by
  unfold Violation.before
  infer_instance

def checksOf (found : List Violation) : List Check :=
  (checkNames.insertionSort (· < ·)).map fun name =>
    let count := (found.filter fun violation => violation.check = name).length
    ⟨name, count = 0, count⟩

def reportOf (options : Options) (counts : Counts) (found : List Violation) : Report :=
  let details := found.take options.maxDetails.toNat
  { passed := found.length = 0
    expectedJobs := options.expectedJobs
    counts := counts
    checks := checksOf found
    violationCount := found.length
    violations := details.insertionSort Violation.before
    detailsTruncated := found.length > details.length }

end RailYard.Oracle
