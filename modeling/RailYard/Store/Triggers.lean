import RailYard.Store.Submissions

/-! Cron triggers and stream deliveries. Both turn an external occurrence into
a submission under a key derived from the occurrence, and then record the
occurrence in a transaction of its own. -/
namespace RailYard.Store
open Library.Transaction Domain

/-- Third-party code the store calls: the hash function, the cron parser, and
the JSON decoder of job specifications, which also yields the canonical text of
what it has decoded. -/
structure Env where
  sha256 : Hash
  parseCron : String → Option (Time → Time)
  decodeJobSpec : List UInt8 → Option (JobSpec × String)

structure CronSubmission where
  id : String := ""
  tenantID : String := ""
  expression : String
  job : JobSpec
  actor : String
  idempotencyKey : String
  requestDigest : String

def Env.schedule (env : Env) (expression : String) : Except Error (Time → Time) :=
  match env.parseCron expression with
  | some next => .ok next
  | none => .error (.text "parse cron expression")

def zeroCronTrigger : CronTrigger where
  id := ""
  tenantID := ""
  expression := ""
  job := { payload := { type := .other "" } }
  nextFireAt := zeroTime
  enabled := false
  createdAt := zeroTime
  updatedAt := zeroTime

def Response.toCron : Response → CronTrigger
  | .cron value => value
  | _ => zeroCronTrigger

def createCronTrigger (env : Env) (options : Options) (submission : CronSubmission)
    (entropy : Entropy) (now : Time) : Tx (CronTrigger × Bool) := do
  let tenantID := tenantOrDefault submission.tenantID
  let job := ({ submission.job with tenantID := tenantID } : JobSpec).normalize
  lift (job.validate options.maxSlotCost options.allowShell)
  let next ← lift (env.schedule submission.expression)
  lift (validateIdempotency submission.idempotencyKey submission.requestDigest)
  match ← readIdempotency tenantID submission.idempotencyKey .cron submission.requestDigest with
  | some response => return (response.toCron, true)
  | none => do
    let trigger : CronTrigger := {
      id := if submission.id = "" then newID entropy else submission.id
      tenantID := tenantID
      expression := submission.expression
      job := job
      nextFireAt := next now
      enabled := true
      createdAt := now
      updatedAt := now }
    require (encodableTime job.availableAt) (.text "encode cron job")
    insert cronTriggers (.wrapped "insert cron trigger" (.constraint "cron_triggers")) trigger.id
      ⟨tenantID, submission.expression, job, submission.actor, timeToDB trigger.nextFireAt, true,
        timeToDB now, timeToDB now⟩
    recordIdempotency tenantID submission.idempotencyKey
      ⟨.cron, submission.requestDigest, none, .cron trigger, timeToDB now⟩
    return (trigger, false)

def dueTriggers (db : Database) (now : Time) (limit : Int) : List (String × CronRow) :=
  ((db.cronTriggers.rows.filter fun entry =>
    entry.2.enabled && entry.2.nextFireAt ≤ timeToDB now).insertionSort fun a b =>
      a.2.nextFireAt < b.2.nextFireAt ∨ (a.2.nextFireAt = b.2.nextFireAt ∧ ¬b.1 < a.1)).take
    limit.toNat

def cronOccurrenceKey (sha256 : Hash) (triggerID : String) (nominal : Time) : String :=
  "cron:" ++ hexDigest sha256 (triggerID ++ "\x00" ++ formatRFC3339Nano nominal)

def cronSubmission (sha256 : Hash) (entry : String × CronRow) : Submission :=
  let key := cronOccurrenceKey sha256 entry.1 (timeFromDB entry.2.nextFireAt)
  { job := entry.2.job
    actor := if entry.2.actor = "" then "system" else entry.2.actor
    idempotencyKey := key
    requestDigest := hexDigest sha256 key }

/-- Record one occurrence and advance its trigger, unless someone else has. -/
def recordOccurrence (triggerID : String) (nominal : Time) (jobID : String) (nextFireAt now : Time) :
    Tx Unit := do
  let targets ← query fun db =>
    (db.cronTriggers.get? triggerID).isSome && (db.jobs.get? jobID).isSome
  let added ← insertIfAbsent cronOccurrences (triggerID, timeToDB nominal)
    ⟨jobID, timeToDB now⟩
  require (added = true → targets = true)
    (.wrapped "insert cron occurrence" (.constraint "cron_occurrences"))
  let _ ← update cronTriggers triggerID (fun row => row.nextFireAt = timeToDB nominal)
    (fun row => { row with nextFireAt := timeToDB nextFireAt, updatedAt := timeToDB now })

inductive RedisValue where
  | missing
  | text (value : String)
  | bytes (value : List UInt8)
  | unsupported (type : String)

structure RedisDelivery where
  triggerID : String
  stream : String
  messageID : String
  job : RedisValue

def RedisDelivery.idempotencyKey (delivery : RedisDelivery) : String :=
  "redis:" ++ delivery.triggerID ++ ":" ++ delivery.stream ++ ":" ++ delivery.messageID

def RedisValue.encoded : RedisValue → Except Error (List UInt8)
  | .missing => .error (.text "redis delivery requires a job field")
  | .text value => .ok (utf8 value)
  | .bytes value => .ok value
  | .unsupported type => .error (.about "redis job field has unsupported type %T" [type])

def redisSubmission (env : Env) (delivery : RedisDelivery) : Except Error Submission := do
  let encoded ← delivery.job.encoded
  match env.decodeJobSpec encoded with
  | none => .error (.text "decode Redis job")
  | some (spec, canonical) => .ok {
      job := spec
      actor := "system"
      idempotencyKey := delivery.idempotencyKey
      requestDigest := hexDigest env.sha256 canonical }

/-- Record one delivery; a message that was delivered before must have led to
the same job. -/
def recordDelivery (triggerID stream messageID jobID : String) (now : Time) : Tx Unit := do
  let target ← query fun db => (db.jobs.get? jobID).isSome
  let added ← insertIfAbsent redisDeliveries (triggerID, stream, messageID)
    ⟨jobID, timeToDB now⟩
  require (added = true → target = true)
    (.wrapped "insert Redis delivery" (.constraint "redis_deliveries"))
  match ← select redisDeliveries (triggerID, stream, messageID) with
  | some row => require (row.jobID = jobID) .idempotencyConflict
  | none => throw (.wrapped "read Redis delivery" .notFound)

end RailYard.Store
