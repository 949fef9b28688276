import RailYard.Store.Leases
import RailYard.Store.Control
import RailYard.Store.Triggers

/-! The store as a machine: every call that writes, with the time it asks for
and the randomness it draws, and the state it leaves. A call is one transaction
under the write gate; a failed transaction leaves the tables alone. -/
namespace RailYard.Store
open Library.Transaction Domain

/-- The logical clock of an open store, whose times are 64-bit integers. -/
structure Clock where
  logicalOrigin : Int
  lastTime : Int
  lastTimeFits : int64 lastTime = lastTime

/-- The time a caller passes in and the time since the store was opened. -/
structure Reading where
  requested : Time
  elapsed : Int

/-- Never behind the caller, the monotonic clock or an earlier write. -/
def Clock.writeTime (clock : Clock) (reading : Reading) : Time :=
  max (max (int64 reading.requested) (int64 (clock.logicalOrigin + int64 reading.elapsed)))
    clock.lastTime

theorem Clock.writeTime_fits (clock : Clock) (reading : Reading) :
    int64 (clock.writeTime reading) = clock.writeTime reading := by
  have hmax : ∀ a b : Int, int64 a = a → int64 b = b → int64 (max a b) = max a b := by
    intro a b ha hb
    rcases max_choice a b with h | h <;> rw [h] <;> assumption
  exact hmax _ _ (hmax _ _ (int64_int64 _) (int64_int64 _)) clock.lastTimeFits

def Clock.tick (clock : Clock) (reading : Reading) : Clock :=
  { clock with
    lastTime := clock.writeTime reading
    lastTimeFits := clock.writeTime_fits reading }

def persistedTimes (db : Database) : List Int :=
  db.jobs.rows.map (fun entry => entry.2.updatedAt) ++
    db.attempts.rows.map (fun entry => entry.2.heartbeatAt) ++
    db.attempts.rows.filterMap (fun entry => entry.2.completedAt) ++
    db.jobCompletions.rows.map (fun entry => entry.2.committedAt) ++
    db.events.map EventRow.occurredAt ++
    db.operationRequests.rows.map (fun entry => entry.2.committedAt) ++
    db.auditEvents.rows.map (fun entry => entry.2.occurredAt) ++
    db.dagRuns.rows.map (fun entry => entry.2.updatedAt)

def initializeLogicalClock (db : Database) : Clock :=
  let persisted := int64 ((persistedTimes db).max?.getD 0)
  ⟨persisted, persisted, int64_int64 _⟩

structure StoreState where
  db : Database
  clock : Clock
  options : Options

def openStore (options : Options) (db : Database) : StoreState :=
  ⟨db, initializeLogicalClock db, options⟩

inductive Op where
  | submitJob (submission : Submission) (entropy : Entropy)
  | submitWorkflow (submission : WorkflowSubmission) (entropy : Nat → Entropy)
  | submitJobOperation (submission : Submission) (entropy : Entropy)
  | submitDagOperation (dagID : String) (submission : WorkflowSubmission)
      (entropy : Nat → Entropy)
  | recordControlAction (request : ControlAction)
  | recordOperatorAction (request : ControlAction)
  | cancelJob (command : OperatorCommand)
  | forceJobAction (command : OperatorCommand) (action : ForceAction)
  | redriveDeadLetterControl (command : OperatorCommand) (entropy : Entropy)
  | retryJobControl (command : OperatorCommand) (entropy : Entropy)
  | redriveDeadLetter (jobID idempotencyKey requestDigest actor : String) (entropy : Entropy)
  | saveDag (id tenantID idempotencyKey requestDigest : String) (nodes : List DagNode)
  | registerWorker (workerID : String) (capacitySlots : Int)
  | heartbeatWorker (workerID : String)
  | acquire (request : AcquireRequest) (tokens : Nat → Entropy)
  | markRunning (workerID : String) (ref : LeaseRef)
  | markRunningBatch (workerID : String) (refs : List LeaseRef)
  | heartbeat (workerID : String) (refs : List LeaseRef) (leaseTTL : Int)
  | complete (completion : Completion)
  | completeBatch (completions : List Completion)
  | promoteDue (limit : Int)
  | reapExpired (limit : Int)
  | createCronTrigger (submission : CronSubmission) (entropy : Entropy)
  | recordOccurrence (triggerID : String) (nominal : Time) (jobID : String)
      (nextFireAt now : Time)
  | recordDelivery (triggerID stream messageID jobID : String) (now : Time)
  | reopen (options : Options)

inductive Reply where
  | done
  | job (job : Job) (duplicate : Bool)
  | jobs (jobs : List Job) (duplicate : Bool)
  | dag (id : String) (jobs : List Job) (duplicate : Bool)
  | recorded (duplicate : Bool)
  | audit (event : AuditEvent) (duplicate : Bool)
  | receipt (receipt : ActionReceipt)
  | leases (leases : List Lease)
  | started (results : List (Except Error Unit))
  | heartbeats (results : List HeartbeatResult)
  | completed (receipt : CompletionReceipt)
  | completions (results : List (Except Error CompletionReceipt))
  | promoted (count : Nat)
  | reaped (leases : List ReapedLease)
  | cron (trigger : CronTrigger) (duplicate : Bool)

def batchError (name : String) (size bound : Nat) : Option (Except Error Reply) :=
  if size = 0 ∨ size > bound then
    some (.error (.text (name ++ " batch must contain between 1 and " ++ toString bound ++
      " items")))
  else none

def Op.early : Op → Option (Except Error Reply)
  | .registerWorker workerID capacitySlots =>
    if workerID = "" then some (.error (.text "worker ID must not be empty"))
    else if capacitySlots < 1 then some (.error (.text "worker capacity must be positive"))
    else none
  | .heartbeatWorker workerID =>
    if workerID = "" then some (.error (.text "worker ID must not be empty")) else none
  | .acquire request _ => request.early.map fun result => result.map .leases
  | .markRunningBatch _ refs => batchError "attempt start" refs.length maxAttemptStartBatchSize
  | .heartbeat _ _ leaseTTL =>
    if leaseTTL ≤ 0 then some (.error (.text "lease TTL must be positive")) else none
  | .completeBatch completions =>
    batchError "completion" completions.length maxCompletionBatchSize
  | .promoteDue limit => if limit < 1 then some (.ok (.promoted 0)) else none
  | .reapExpired limit => if limit < 1 then some (.ok (.reaped [])) else none
  | _ => none

def Op.program (env : Env) (options : Options) (now : Time) : Op → Tx Reply
  | .submitJob submission entropy => do
    let result ← Store.submitJob options submission entropy now
    return .job result.1 result.2
  | .submitWorkflow submission entropy => do
    let result ← Store.submitWorkflow options submission entropy now
    return .jobs result.1 result.2
  | .submitJobOperation submission entropy => do
    let result ← Store.submitJobOperation env.sha256 options submission entropy now
    return .job result.1 result.2
  | .submitDagOperation dagID submission entropy => do
    let result ← Store.submitDagOperation env.sha256 options dagID submission entropy now
    return .dag result.1.1 result.1.2 result.2
  | .recordControlAction request => do
    return .recorded (← Store.recordControlAction env.sha256 request now)
  | .recordOperatorAction request => do
    let result ← Store.recordOperatorAction env.sha256 request now
    return .audit result.1 result.2
  | .cancelJob command => do
    return .receipt (← applyJobControl env.sha256 (cancelCommand command) now)
  | .forceJobAction command action => do
    return .receipt (← applyJobControl env.sha256 (forceCommand command action) now)
  | .redriveDeadLetterControl command entropy => do
    let result ← Store.redriveDeadLetterControl env.sha256 options command entropy now
    return .job result.1 result.2
  | .retryJobControl command entropy => do
    let result ← Store.retryJobControl env.sha256 options command entropy now
    return .job result.1 result.2
  | .redriveDeadLetter jobID idempotencyKey requestDigest actor entropy => do
    let result ← Store.redriveDeadLetter env.sha256 options jobID idempotencyKey requestDigest
      actor entropy now
    return .job result.1 result.2
  | .saveDag id tenantID idempotencyKey requestDigest nodes => do
    Store.saveDag id tenantID idempotencyKey requestDigest nodes now
    return .done
  | .registerWorker workerID capacitySlots => do
    Store.registerWorker workerID capacitySlots now
    return .done
  | .heartbeatWorker workerID => do
    Store.heartbeatWorker workerID now
    return .done
  | .acquire request tokens => do
    return .leases (← Store.acquire env.sha256 request tokens now)
  | .markRunning workerID ref => do
    markRunningTx env.sha256 workerID ref now
    return .done
  | .markRunningBatch workerID refs => do
    return .started (← Store.markRunningBatch env.sha256 workerID refs now)
  | .heartbeat workerID refs leaseTTL => do
    return .heartbeats (← Store.heartbeat env.sha256 workerID refs now leaseTTL)
  | .complete completion => do
    return .completed (← applyCompletionTx env.sha256 completion now)
  | .completeBatch completions => do
    return .completions (← Store.completeBatch env.sha256 completions now)
  | .promoteDue limit => do
    return .promoted (← Store.promoteDue now limit)
  | .reapExpired limit => do
    return .reaped (← Store.reapExpired now limit)
  | .createCronTrigger submission entropy => do
    let result ← Store.createCronTrigger env options submission entropy now
    return .cron result.1 result.2
  | .recordOccurrence triggerID nominal jobID nextFireAt firedAt => do
    Store.recordOccurrence triggerID nominal jobID nextFireAt firedAt
    return .done
  | .recordDelivery triggerID stream messageID jobID deliveredAt => do
    Store.recordDelivery triggerID stream messageID jobID deliveredAt
    return .done
  | .reopen _ => return .done

/-- The occurrence and delivery transactions stand outside the write gate and
take no write time. -/
def Op.gated : Op → Bool
  | .recordOccurrence .. | .recordDelivery .. => false
  | _ => true

structure Call where
  op : Op
  reading : Reading

def StoreState.perform {α : Type} (store : StoreState) (reading : Reading)
    (program : Time → Tx α) : Except Error α × StoreState :=
  let now := store.clock.writeTime reading
  let result := commit (program now) store.db
  (result.1, { store with db := result.2, clock := store.clock.tick reading })

def StoreState.transact {α : Type} (store : StoreState) (program : Tx α) :
    Except Error α × StoreState :=
  let result := commit program store.db
  (result.1, { store with db := result.2 })

def execute (env : Env) (store : StoreState) (call : Call) : Except Error Reply × StoreState :=
  match call.op.early with
  | some reply => (reply, store)
  | none =>
    if call.op.gated then
      store.perform call.reading fun now => call.op.program env store.options now
    else store.transact (call.op.program env store.options 0)

def step (env : Env) (store : StoreState) (call : Call) : Except Error Reply × StoreState :=
  match call.op with
  | .reopen options => (.ok .done, openStore options store.db)
  | _ => execute env store call

def runCalls (env : Env) (store : StoreState) (calls : List Call) : StoreState :=
  calls.foldl (fun store call => (step env store call).2) store

def freshStore (options : Options) : StoreState := openStore options .empty

def fireTrigger (env : Env) (now : Time) (elapsed : Int) (entropy : Entropy)
    (store : StoreState) (entry : String × CronRow) : Except Error String × StoreState :=
  match store.perform ⟨now, elapsed⟩
      (submitJob store.options (cronSubmission env.sha256 entry) entropy) with
  | (.error error, failed) => (.error error, failed)
  | (.ok (job, _), submitted) =>
    match env.schedule entry.2.expression with
    | .error error => (.error error, submitted)
    | .ok next =>
      match submitted.transact (recordOccurrence entry.1 (timeFromDB entry.2.nextFireAt) job.id
          (next now) now) with
      | (.error error, failed) => (.error error, failed)
      | (.ok _, recorded) => (.ok job.id, recorded)

def fireTriggers (env : Env) (now : Time) (elapsed : Nat → Int) (entropy : Nat → Entropy)
    (index : Nat) (store : StoreState) :
    List (String × CronRow) → Except Error (List String) × StoreState
  | [] => (.ok [], store)
  | entry :: rest =>
    match fireTrigger env now (elapsed index) (entropy index) store entry with
    | (.error error, failed) => (.error error, failed)
    | (.ok jobID, fired) =>
      match fireTriggers env now elapsed entropy (index + 1) fired rest with
      | (.error error, failed) => (.error error, failed)
      | (.ok jobIDs, done) => (.ok (jobID :: jobIDs), done)

def fireDueCron (env : Env) (store : StoreState) (now : Time) (limit : Int)
    (elapsed : Nat → Int) (entropy : Nat → Entropy) : Except Error (List String) × StoreState :=
  if limit < 1 then (.ok [], store)
  else fireTriggers env now elapsed entropy 0 store (dueTriggers store.db now limit)

def deliverRedis (env : Env) (store : StoreState) (delivery : RedisDelivery) (now : Time)
    (elapsed : Int) (entropy : Entropy) : Except Error Unit × StoreState :=
  match redisSubmission env delivery with
  | .error error => (.error error, store)
  | .ok submission =>
    match store.perform ⟨now, elapsed⟩ (submitJob store.options submission entropy) with
    | (.error error, failed) => (.error error, failed)
    | (.ok (job, _), submitted) =>
      submitted.transact (recordDelivery delivery.triggerID delivery.stream delivery.messageID
        job.id now)

/-- What the processes around the store do with it: single calls, and the two
trigger loops, which make several. -/
inductive Activity where
  | call (call : Call)
  | fireDueCron (now : Time) (limit : Int) (elapsed : Nat → Int) (entropy : Nat → Entropy)
  | deliverRedis (delivery : RedisDelivery) (now : Time) (elapsed : Int) (entropy : Entropy)

def advance (env : Env) (store : StoreState) : Activity → StoreState
  | .call call => (step env store call).2
  | .fireDueCron now limit elapsed entropy => (fireDueCron env store now limit elapsed entropy).2
  | .deliverRedis delivery now elapsed entropy =>
    (deliverRedis env store delivery now elapsed entropy).2

def run (env : Env) (store : StoreState) (activities : List Activity) : StoreState :=
  activities.foldl (advance env) store

end RailYard.Store
