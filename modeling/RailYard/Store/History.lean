import RailYard.Store.Statements

/-! The history of a job, read page by page from its newest event backwards. -/
namespace RailYard.Store
open Domain

/-- A page has room for an event; `beforeSeq` zero asks for the newest ones. -/
structure HistoryQuery where
  limit : Nat
  beforeSeq : Int := 0
  limitPositive : 0 < limit

structure JobEvent where
  sequence : Int
  eventType : EventType
  state : JobState
  stateVersion : Int
  occurredAt : Time
  actor : String
  payload : EventPayload
  deriving DecidableEq

/-- `nextBeforeSeq` zero says that there is no further page. -/
structure JobHistoryPage where
  events : List JobEvent
  nextBeforeSeq : Int := 0
  deriving DecidableEq

/-- `int64(^uint64(0) >> 1)` -/
def maxInt64 : Int := 2 ^ 63 - 1

def HistoryQuery.before (query : HistoryQuery) : Int :=
  if query.beforeSeq = 0 then maxInt64 else query.beforeSeq

def actorOf (payload : EventPayload) : String :=
  match payload.lookup "actor" with
  | some (.text actor) => if actor = "" then "system" else actor
  | _ => "system"

def toJobEvent (row : EventRow) : JobEvent where
  sequence := row.eventSeq
  eventType := row.eventType
  state := row.state
  stateVersion := row.stateVersion
  occurredAt := timeFromDB row.occurredAt
  actor := actorOf row.payload
  payload := row.payload

/-- A payload that was bound as text comes back as a string, which `Scan` does
not store into a `json.RawMessage`. -/
def scanJobEvent (row : EventRow) : Except Error JobEvent :=
  match row.storage with
  | .text => .error (.wrapped "scan job history" (.text ("sql: Scan error on column index 5, " ++
      "name \"payload_json\": unsupported Scan, storing driver.Value type string into type " ++
      "*json.RawMessage")))
  | .blob => .ok (toJobEvent row)

/-- `WHERE job_id = ? AND event_seq < ? ORDER BY event_seq DESC` -/
def olderEvents (db : Database) (jobID : String) (before : Int) : List EventRow :=
  (db.events.filter fun event => event.jobID = jobID ∧ event.eventSeq < before).insertionSort
    fun a b => b.eventSeq ≤ a.eventSeq

def pageOf (limit : Nat) (events : List JobEvent) : JobHistoryPage :=
  if limit < events.length then
    ⟨events.take limit, (((events.take limit).getLast?).map JobEvent.sequence).getD 0⟩
  else ⟨events, 0⟩

def jobHistory (db : Database) (jobID : String) (query : HistoryQuery) :
    Except Error JobHistoryPage := do
  if (db.jobs.get? jobID).isNone then throw .notFound
  let rows := (olderEvents db jobID query.before).take (query.limit + 1)
  let events ← rows.mapM' scanJobEvent
  return pageOf query.limit events

end RailYard.Store
