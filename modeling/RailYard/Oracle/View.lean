import RailYard.Oracle.Passes
import RailYard.Store.Schema

/-! The tables of the store as the oracle scans them: states and event types by
their texts, and the columns that hold JSON as the text that was written. -/
namespace RailYard.Oracle
open Library Domain

def typeText : PayloadType → String
  | .noop => "noop"
  | .shell => "shell"
  | .other name => name

def payloadJson (payload : Payload) : Json :=
  .object ([("type", .text (typeText payload.type))] ++
    optionalNumber "duration_ms" payload.durationMS ++
    if payload.args = [] then [] else [("args", .array (payload.args.map .text))])

def retryJson (retry : Domain.RetryPolicy) : Json :=
  .object [("max_attempts", .number retry.maxAttempts), ("retryable", .bool retry.retryable)]

def scanJob (id : String) (row : Store.JobRow) : JobRow where
  id := id
  tenantID := row.tenantID
  queue := row.queueName
  slotCost := row.slotCost
  payloadJSON := (payloadJson row.payload).render
  retryJSON := (retryJson row.retry).render
  state := stateText row.state
  attemptNo := row.attemptNo
  stateVersion := row.stateVersion
  leaseGeneration := row.leaseGeneration
  readySeq := row.readySeq
  executionKey := row.executionKey
  createdAt := row.createdAt
  updatedAt := row.updatedAt
  terminalAt := row.terminalAt
  failureJSON := row.failure.map fun failure => failure.toJson.render

def eventText : Store.EventType → String
  | .jobAdmitted => "job_admitted"
  | .leaseAcquired => "lease_acquired"
  | .attemptStarted => "attempt_started"
  | .jobCompleted => "job_completed"
  | .retryScheduled => "retry_scheduled"
  | .jobPromoted => "job_promoted"
  | .leaseReaped => "lease_reaped"
  | .dependencyReleased => "dependency_released"
  | .upstreamFailed => "upstream_failed"
  | .operator action => "operator_" ++ action

def scalarJson : Store.Scalar → Json
  | .number value => .number value
  | .text value => .text value

def eventJson (payload : Store.EventPayload) : Json :=
  .object (payload.map fun field => (field.1, scalarJson field.2))

def scanEvent (event : Store.EventRow) : EventRow where
  sequence := event.eventSeq
  jobID := event.jobID
  type := eventText event.eventType
  state := stateText event.state
  stateVersion := event.stateVersion
  occurredAt := event.occurredAt
  payloadJSON := (eventJson event.payload).render

def jobRows (db : Store.Database) : List JobRow :=
  db.jobs.rows.map fun entry => scanJob entry.1 entry.2

def scannedJobs (db : Store.Database) : Jobs := Table.index JobRow.id (jobRows db)

def eventRows (db : Store.Database) : List EventRow := db.events.map scanEvent

theorem get?_scannedJobs (db : Store.Database) (id : String) :
    (scannedJobs db).get? id = (db.jobs.get? id).map (scanJob id) := by
  have hkeys : (jobRows db).map JobRow.id = db.jobs.keys := by
    rw [jobRows, List.map_map]
    rfl
  cases hrow : db.jobs.get? id with
  | some row =>
    have hmem : scanJob id row ∈ jobRows db :=
      List.mem_map.mpr ⟨(id, row), (Table.mem_rows_iff _ _ _).mpr hrow, rfl⟩
    exact Table.get?_index (hkeys ▸ db.jobs.nodupKeys) hmem
  | none =>
    rw [Option.map_none, Option.eq_none_iff_forall_not_mem]
    intro found hfound
    obtain ⟨hmem, hid⟩ := Table.mem_of_get?_index hfound
    have hkey : id ∈ db.jobs.keys := hkeys ▸ List.mem_map.mpr ⟨found, hmem, hid⟩
    exact (Table.not_mem_keys_iff _ _).mpr hrow hkey

def eventMembers (payload : Store.EventPayload) : List (String × JsonSyntax.Document) :=
  payload.map fun field => (field.1, match field.2 with
    | .number value => .number (toString value).toList
    | .text value => .text value)

theorem valid_eventJson (payload : Store.EventPayload) :
    JsonSyntax.valid (eventJson payload).render = true := by
  have hscalars : ∀ member ∈ eventMembers payload, JsonSyntax.Scalar member.2 := by
    intro member hmember
    obtain ⟨⟨name, value⟩, _, rfl⟩ := List.mem_map.mp hmember
    cases value with
    | number value => exact .number value
    | text value => exact .text value
  apply JsonSyntax.valid_object hscalars
  rw [eventJson, JsonReader.toList_render_object, eventMembers, List.map_map, List.map_map]
  congr 3
  apply List.map_congr_left
  rintro ⟨name, value⟩ _
  cases value <;> rfl

theorem eventText_admitted : eventText eventType = "job_admitted" ↔ eventType = .jobAdmitted := by
  constructor
  · intro h
    cases eventType with
    | jobAdmitted => rfl
    | operator action =>
      have hlist := congrArg (fun text => text.toList.head?) h
      rw [eventText, String.toList_append] at hlist
      revert hlist
      simp
    | _ => revert h; decide
  · rintro rfl
    rfl

end RailYard.Oracle
