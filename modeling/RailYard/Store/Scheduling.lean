import RailYard.Store.Statements
import Mathlib.Data.List.Dedup

/-! The scheduler's view of the database: the snapshot of ready jobs that one
decision is made from, and what is kept of the decision. -/
namespace RailYard.Store
open Library.Transaction Domain Scheduler

structure LeaseCandidate where
  jobID : String
  tenantID : String
  queue : String
  priority : Int
  slotCost : Int
  payload : Payload
  attemptNo : Int
  stateVersion : Int
  generation : Int
  executionKey : String
  readyAt : Time
  deriving DecidableEq

structure SchedulePlan where
  input : Snapshot
  decision : Decision
  candidates : List LeaseCandidate

def leaseCandidate (entry : String × JobRow) : LeaseCandidate where
  jobID := entry.1
  tenantID := entry.2.tenantID
  queue := entry.2.queueName
  priority := entry.2.priority
  slotCost := entry.2.slotCost
  payload := entry.2.payload
  attemptNo := entry.2.attemptNo
  stateVersion := entry.2.stateVersion
  generation := entry.2.leaseGeneration
  executionKey := entry.2.executionKey
  readyAt := timeFromDB entry.2.updatedAt

def schedulerCandidate (entry : String × JobRow) : Candidate where
  jobID := entry.1
  tenantID := entry.2.tenantID
  queue := entry.2.queueName
  priority := entry.2.priority
  readySeq := entry.2.readySeq
  slotCost := entry.2.slotCost
  recovery := entry.2.recoveryPending

def queueKey (entry : String × JobRow) : String × String := (entry.2.tenantID, entry.2.queueName)

def isReady (db : Database) (now : Time) (entry : String × JobRow) : Bool :=
  entry.2.state = .pending && 0 < entry.2.readySeq && entry.2.availableAt ≤ timeToDB now &&
    (match db.tenantLimits.get? entry.2.tenantID with
      | some limits =>
        limits.maxSlots = 0 || limits.activeSlots + entry.2.slotCost ≤ limits.maxSlots
      | none => false) &&
    (db.queueState.get? (queueKey entry)).isSome

def predecessors (ready : List (String × JobRow)) (entry : String × JobRow) :
    List (String × JobRow) :=
  ready.filter fun other => queueKey other = queueKey entry &&
    candidateLess (schedulerCandidate other) (schedulerCandidate entry)

def snapshotLess (a b : String × JobRow) : Bool :=
  if a.2.tenantID ≠ b.2.tenantID then a.2.tenantID < b.2.tenantID
  else if a.2.queueName ≠ b.2.queueName then a.2.queueName < b.2.queueName
  else if a.2.priority ≠ b.2.priority then a.2.priority > b.2.priority
  else if a.2.readySeq ≠ b.2.readySeq then a.2.readySeq < b.2.readySeq
  else a.1 < b.1

/-- The first `limit` ready jobs of every queue. -/
def rankedJobs (db : Database) (now : Time) (limit : Int) : List (String × JobRow) :=
  let ready := db.jobs.rows.filter (isReady db now)
  (ready.filter fun entry => ((predecessors ready entry).length : Int) < limit).insertionSort
    fun a b => snapshotLess b a = false

def buildQueues (db : Database) (ranked : List (String × JobRow)) : List Queue :=
  (ranked.map queueKey).dedup.filterMap fun key =>
    (db.queueState.get? key).map fun queue => {
      tenantID := key.1
      name := key.2
      weight := queue.weight
      deficit := queue.deficit
      candidates := (ranked.filter fun entry => queueKey entry = key).map schedulerCandidate }

/-- Slots are held back for recovering jobs while none of them is ready. -/
def offeredSlots (ranked : List (String × JobRow)) (workerSlots recoveryReserve : Int) : Int :=
  if ranked.any fun entry => entry.2.recoveryPending then workerSlots
  else workerSlots - min workerSlots recoveryReserve

def nextSchedulerSeq : Tx Int := do
  mutate fun db => { db with schedulerSeq := db.schedulerSeq + 1 }
  query Database.schedulerSeq

/-- `none` when there is nothing to schedule. -/
def buildSchedulePlan (sha256 : Hash) (now : Time) (workerSlots limit recoveryReserve : Int) :
    Tx (Option SchedulePlan) := do
  let ranked ← query fun db => rankedJobs db now limit
  let slots := offeredSlots ranked workerSlots recoveryReserve
  if ranked.isEmpty ∨ slots = 0 then
    return none
  else do
    let sequence ← nextSchedulerSeq
    let cursor ← query Database.schedulerCursor
    let queues ← query fun db => buildQueues db ranked
    let input : Snapshot := {
      sequence := sequence
      logicalTimeNS := timeToDB now
      workerSlots := slots
      batchLimit := limit
      cursor := cursor
      queues := queues
      configHash := hexDigest sha256 algorithmVersion
      algorithm := algorithmVersion }
    let decision ← lift (decide input)
    return some ⟨input, decision, ranked.map leaseCandidate⟩

def updateDeficit (now : Time) (queue : QueueState) : Tx Unit := do
  let _ ← update queueState (queue.tenantID, queue.queue) (fun _ => true)
    (fun row => { row with deficit := queue.deficit, updatedAt := timeToDB now })

/-- `ORDER BY sequence DESC LIMIT 1`. -/
def previousHash (db : Database) : String :=
  match (db.decisionLog.rows.insertionSort fun a b => b.1 ≤ a.1).head? with
  | some entry => entry.2.hash
  | none => ""

def persistSchedulePlan (sha256 : Hash) (plan : SchedulePlan) (now : Time) : Tx Unit := do
  plan.decision.queues.forM (updateDeficit now)
  mutate fun db => { db with schedulerCursor := plan.decision.nextCursor }
  let previous ← query previousHash
  let record ← lift (newRecord sha256 previous plan.input plan.decision)
  let fresh ← query fun db => db.decisionLog.rows.all fun entry => entry.2.hash ≠ record.hash
  require fresh (.wrapped "insert decision record" (.constraint "decision_log"))
  insert decisionLog (.wrapped "insert decision record" (.constraint "decision_log"))
    record.sequence ⟨record.previousHash, record.hash, record, timeToDB now⟩

end RailYard.Store
