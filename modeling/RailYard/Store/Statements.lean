import RailYard.Store.Schema

/-! The statements that several transactions share: sequence numbers, events,
slot reservations, the terminal ledger and the conversion of a row to the job
the API returns. -/
namespace RailYard.Store
open Library.Transaction Domain

/-- What `OpenWithOptions` accepts. -/
structure Options where
  defaultTenantDepth : Int
  defaultTenantSlots : Int
  maxSlotCost : Int
  allowShell : Bool
  depthPositive : 1 ≤ defaultTenantDepth
  slotsNonnegative : 0 ≤ defaultTenantSlots
  costPositive : 1 ≤ maxSlotCost

def defaultOptions : Options where
  defaultTenantDepth := 100000
  defaultTenantSlots := 0
  maxSlotCost := 64
  allowShell := false
  depthPositive := by decide
  slotsNonnegative := by decide
  costPositive := by decide

def nextReadySeq : Tx Int := do
  mutate fun db => { db with readySeq := db.readySeq + 1 }
  query Database.readySeq

def readySeqIf (ready : Prop) [Decidable ready] : Tx Int :=
  if ready then nextReadySeq else pure 0

/-- One more row at the end of the event log. Rows are never deleted, so the
sequence number is one more than their count. -/
def addEvent (storage : StorageClass) (jobID : String) (eventType : EventType) (state : JobState)
    (stateVersion : Int) (now : Time) (payload : EventPayload) : Tx Unit :=
  mutate fun db => { db with
    events := db.events ++
      [⟨db.events.length + 1, jobID, eventType, state, stateVersion, timeToDB now, payload,
        storage⟩] }

def appendEvent : String → EventType → JobState → Int → Time → EventPayload → Tx Unit :=
  addEvent .text

def appendActorEvent : String → EventType → JobState → Int → Time → EventPayload → Tx Unit :=
  addEvent .blob

def reserveSlots (tenantID queue : String) (slotCost : Int) (now : Time) : Tx Bool := do
  let reserved ← update tenantLimits tenantID
    (fun row => row.maxSlots = 0 || row.activeSlots + slotCost ≤ row.maxSlots)
    (fun row => { row with activeSlots := row.activeSlots + slotCost })
  if reserved then do
    let found ← update queueState (tenantID, queue) (fun _ => true)
      (fun row => { row with
        activeSlots := row.activeSlots + slotCost, updatedAt := timeToDB now })
    require found (.text "queue state is missing")
    return true
  else
    return false

def releaseSlots (tenantID queue : String) (slotCost : Int) (now : Time) : Tx Unit := do
  let tenantReleased ← update tenantLimits tenantID
    (fun row => slotCost ≤ row.activeSlots)
    (fun row => { row with activeSlots := row.activeSlots - slotCost })
  require tenantReleased (.text "tenant slot reservation is inconsistent")
  let queueReleased ← update queueState (tenantID, queue)
    (fun row => slotCost ≤ row.activeSlots)
    (fun row => { row with
      activeSlots := row.activeSlots - slotCost, updatedAt := timeToDB now })
  require queueReleased (.text "queue slot reservation is inconsistent")

def nullableTime (value : Time) (present : Bool) : Option Int :=
  if present then some (timeToDB value) else none

def insertCanonicalCompletion (jobID : String) (state : JobState) (stateVersion attemptNo : Int)
    (outputDigest : String) (failure : Option Failure) (now : Time) : Tx Unit := do
  require state.terminal
    (.wrapped "insert canonical completion" (.constraint "job_completions"))
  insert jobCompletions
    (.wrapped "insert canonical completion" (.constraint "job_completions")) jobID
    ⟨state, stateVersion, attemptNo, outputDigest, failure, timeToDB now⟩

def insertDeadLetter (jobID : String) (failure : Option Failure) (now : Time) : Tx Unit :=
  match failure with
  | none => throw (.wrapped "insert dead letter" (.constraint "dead_letters"))
  | some failure =>
    insert deadLetters (.wrapped "insert dead letter" (.constraint "dead_letters")) jobID
      { failure := failure, createdAt := timeToDB now }

def upstreamFailed : Failure :=
  { failureClass := "upstream_failed", message := "an upstream dependency did not succeed" }

def scanJob (id : String) (row : JobRow) : Job where
  id := id
  tenantID := row.tenantID
  queue := row.queueName
  priority := row.priority
  slotCost := row.slotCost
  payload := row.payload
  retry := row.retry
  state := row.state
  attemptNo := row.attemptNo
  stateVersion := row.stateVersion
  leaseGeneration := row.leaseGeneration
  availableAt := timeFromDB row.availableAt
  readySeq := row.readySeq
  createdAt := timeFromDB row.createdAt
  updatedAt := timeFromDB row.updatedAt
  terminalAt := row.terminalAt.map timeFromDB
  failure := row.failure

end RailYard.Store
