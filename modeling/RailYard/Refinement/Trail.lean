import RailYard.Refinement.Requests

/-! The trail that operators leave: the records of their requests, the audit
events and the events in the histories of jobs. Each request that is carried
out adds one record, one audit event and at most one event of a job. -/
namespace RailYard.Refinement
open Library Library.Transaction Domain Store

structure OperatorEvent where
  jobID : String
  action : String
  actor : Option Scalar
  occurredAt : Int
  deriving DecidableEq

def operatorEvent? (event : EventRow) : Option OperatorEvent :=
  match event.eventType with
  | .operator action =>
    some ⟨event.jobID, action, event.payload.lookup "actor", event.occurredAt⟩
  | _ => none

def operatorEvents (db : Database) : List OperatorEvent := db.events.filterMap operatorEvent?

structure Trail where
  requests : Table (String × String × String) OperationRow
  audits : Table String AuditRow
  events : List OperatorEvent

def trail (db : Database) : Trail := ⟨db.operationRequests, db.auditEvents, operatorEvents db⟩

def AuditRow.scope (audit : AuditRow) : String × String × String :=
  (audit.tenantID, audit.action, audit.idempotencyKey)

def auditAction (action : String) : String :=
  if action = "cancel" then "job.cancel"
  else if action = "redrive" then "dead_letter.redrive"
  else if action = "retry" then "job.retry"
  else "job.force." ++ action

theorem auditAction_cancel : auditAction "cancel" = "job.cancel" := by decide

theorem auditAction_redrive : auditAction "redrive" = "dead_letter.redrive" := by decide

theorem auditAction_retry : auditAction "retry" = "job.retry" := by decide

structure Matches (audit : AuditRow) (event : OperatorEvent) : Prop where
  jobID : event.jobID = audit.targetID
  actor : event.actor = some (.text audit.actor)
  occurredAt : event.occurredAt = audit.occurredAt
  action : auditAction event.action = audit.action

structure Recording where
  scope : String × String × String
  request : OperationRow
  auditID : String
  audit : AuditRow
  event : Option OperatorEvent
  sameScope : AuditRow.scope audit = scope
  sameStory : ∀ found ∈ event, Matches audit found

def Trail.add (trail : Trail) (recording : Recording) : Trail where
  requests := trail.requests.insert recording.scope recording.request
  audits := trail.audits.insert recording.auditID recording.audit
  events := trail.events ++ recording.event.toList

structure Recording.Fresh (recording : Recording) (trail : Trail) : Prop where
  request : trail.requests.get? recording.scope = none
  auditID : trail.audits.get? recording.auditID = none
  audit : ∀ entry ∈ trail.audits.rows, AuditRow.scope entry.2 ≠ recording.scope

theorem operatorEvent?_of_not (h : isOperator event.eventType = false) :
    operatorEvent? event = none := by
  unfold operatorEvent?
  split
  · rename_i htype
    rw [htype] at h
    cases h
  · rfl

theorem aloof_trail : Aloof trail := by
  refine { toApart := ?_, attempts := fun _ _ => rfl }
  constructor
  case event =>
    intro db event h
    unfold trail operatorEvents
    simp [operatorEvent?_of_not h]
  all_goals intros; rfl

theorem operatorEvents_map (h : ∀ event, operatorEvent? (change event) = operatorEvent? event)
    (events : List EventRow) :
    (events.map change).filterMap operatorEvent? = events.filterMap operatorEvent? := by
  rw [List.filterMap_map]
  congr 1
  funext event
  exact h event

theorem preserves_attributeAdmission (jobID actor : String) :
    Preserves trail (attributeAdmission jobID actor) := by
  refine .bind (.query _) fun _ => .bind (.mutate fun db => ?_) fun _ => .require _ _
  unfold Unchanged trail operatorEvents
  simp only [Trail.mk.injEq, true_and]
  apply operatorEvents_map
  intro event
  split
  · rename_i hadmission
    unfold isAdmissionOf at hadmission
    rw [Bool.and_eq_true, decide_eq_true_eq, decide_eq_true_eq] at hadmission
    simp [operatorEvent?, hadmission.2]
  · rfl

theorem preserves_normalizePayloads (jobID : String) :
    Preserves trail (normalizePayloads jobID) := by
  refine .mutate fun db => ?_
  unfold Unchanged trail operatorEvents
  simp only [Trail.mk.injEq, true_and]
  apply operatorEvents_map
  intro event
  split <;> rfl

theorem operatorEvent_ok (h : addEvent storage jobID (.operator action) state stateVersion now
      (("actor", .text actor) :: rest) db = .ok () db') :
    trail db' = { trail db with
      events := (trail db).events ++ [⟨jobID, action, some (.text actor), timeToDB now⟩] } := by
  rw [← mutate_ok h]
  unfold trail operatorEvents
  rw [List.filterMap_append]
  rfl

structure Tells (action : ControlAction) (event : OperatorEvent) : Prop where
  jobID : event.jobID = action.targetID
  actor : event.actor = some (.text action.actor)
  occurredAt : event.occurredAt = timeToDB action.committedAt
  action : auditAction event.action = action.action

def recordingOf (sha256 : Hash) (action : ControlAction) (event : Option OperatorEvent)
    (tells : ∀ found ∈ event, Tells action found) : Recording where
  scope := (action.tenantID, action.action, action.idempotencyKey)
  request := {
    actor := action.actor
    reason := action.reason
    requestDigest := action.requestDigest
    committedAt := timeToDB action.committedAt
    targetType := action.targetType
    targetID := action.targetID
    targetState := action.targetState
    targetVersion := if action.targetVersion > 0 then some action.targetVersion else none
    response := action.response }
  auditID := (newAuditEvent sha256 action).id
  audit := {
    tenantID := action.tenantID
    idempotencyKey := action.idempotencyKey
    action := action.action
    actor := action.actor
    occurredAt := timeToDB action.committedAt
    targetType := action.targetType
    targetID := action.targetID
    details := action.details }
  event := event
  sameScope := rfl
  sameStory := fun found hfound =>
    have htells := tells found hfound
    ⟨htells.jobID, htells.actor, htells.occurredAt, htells.action⟩

theorem insertControlAction_ok {before : Trail} (tells : ∀ found ∈ event, Tells action found)
    (hbefore : trail db = { before with events := before.events ++ event.toList })
    (h : insertControlAction sha256 action db = .ok () db') :
    (recordingOf sha256 action event tells).Fresh before ∧
      trail db' = before.add (recordingOf sha256 action event tells) := by
  obtain ⟨_, h⟩ := require_bind h
  obtain ⟨_, _, hinsert, h⟩ := bind_ok h
  obtain ⟨hrequest, rfl⟩ := insert_ok hinsert
  obtain ⟨fresh, _, hquery, h⟩ := bind_ok h
  obtain ⟨hfresh, rfl⟩ := query_ok hquery
  obtain ⟨hunique, h⟩ := require_bind h
  obtain ⟨hid, rfl⟩ := insert_ok h
  have hrequests : db.operationRequests = before.requests := congrArg Trail.requests hbefore
  have haudits : db.auditEvents = before.audits := congrArg Trail.audits hbefore
  have hevents : operatorEvents db = before.events ++ event.toList := congrArg Trail.events hbefore
  change db.operationRequests.get? _ = none at hrequest
  change db.auditEvents.get? _ = none at hid
  rw [← hfresh, List.all_eq_true] at hunique
  refine ⟨⟨by rwa [← hrequests], by rwa [← haudits], ?_⟩, ?_⟩
  · intro entry hentry
    rw [← haudits] at hentry
    exact of_decide_eq_true (hunique entry hentry)
  · change Trail.mk (db.operationRequests.insert _ _) (db.auditEvents.insert _ _) _ = _
    rw [hrequests, haudits]
    exact congrArg (Trail.mk _ _) hevents

structure Carried (sha256 : Hash) (action : ControlAction) (event : Option OperatorEvent)
    (db db' : Database) : Prop where
  tells : ∀ found ∈ event, Tells action found
  fresh : (recordingOf sha256 action event tells).Fresh (trail db)
  added : trail db' = (trail db).add (recordingOf sha256 action event tells)

theorem carried_of_quiet (hquiet : trail between = trail db)
    (h : insertControlAction sha256 action between = .ok () db') :
    Carried sha256 action none db db' := by
  have htells : ∀ found ∈ (none : Option OperatorEvent), Tells action found :=
    fun _ hfound => by cases hfound
  have hbefore : trail between = { trail db with
      events := (trail db).events ++ (none : Option OperatorEvent).toList } := by
    rw [hquiet, Option.toList_none, List.append_nil]
  obtain ⟨hfresh, hadded⟩ := insertControlAction_ok htells hbefore h
  exact ⟨htells, hfresh, hadded⟩

theorem carried_of_event (htells : Tells action event)
    (hevent : trail between = { trail db with events := (trail db).events ++ [event] })
    (h : insertControlAction sha256 action between = .ok () db') :
    Carried sha256 action (some event) db db' := by
  have htells : ∀ found ∈ some event, Tells action found := by
    rintro _ ⟨⟩
    exact htells
  obtain ⟨hfresh, hadded⟩ := insertControlAction_ok htells hevent h
  exact ⟨htells, hfresh, hadded⟩

end RailYard.Refinement
