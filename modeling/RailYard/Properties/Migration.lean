import RailYard.Store.Migration

/-! The third migration keeps every operator request and every audit event. -/
namespace RailYard.Properties

open RailYard.Store.Migration

namespace Migration

/-- The keys of version 2: primary and unique ones, and the reference from an audit
event to its request. -/
structure Consistent (old : VersionTwo) : Prop where
  jobs : (old.jobs.map Prod.fst).Nodup
  dagRuns : (old.dagRuns.map Prod.fst).Nodup
  requests : (old.operationRequests.map OperationRequest.idempotencyKey).Nodup
  events : (old.auditEvents.map AuditEvent.id).Nodup
  unique : (old.auditEvents.map AuditEvent.idempotencyKey).Nodup
  reference : ∀ event ∈ old.auditEvents,
    event.idempotencyKey ∈ old.operationRequests.map OperationRequest.idempotencyKey

def SameActions (old : VersionTwo) : Prop :=
  ∀ event ∈ old.auditEvents, ∀ request ∈ old.operationRequests,
    request.idempotencyKey = event.idempotencyKey → request.action = event.action

/-- The table that holds what a request was about. A dead letter goes by the
identifier of its job. -/
def targets (old : VersionTwo) (request : OperationRequest) : List (String × String) :=
  if request.targetType = "job" ∨ request.targetType = "dead_letter" then old.jobs
  else if request.targetType = "dag" then old.dagRuns else []

/-- The tenant of what the request was about, if that is still there. -/
def TenantOf (old : VersionTwo) (request : OperationRequest) (tenantID : String) : Prop :=
  (request.targetID, tenantID) ∈ targets old request ∨
    request.targetID ∉ (targets old request).map Prod.fst ∧ tenantID = "default"

theorem selectTenant_spec (table : List (String × String)) (id : String) :
    (∃ tenantID, selectTenant table id true = some tenantID ∧ (id, tenantID) ∈ table) ∨
      selectTenant table id true = none ∧ id ∉ table.map Prod.fst := by
  unfold selectTenant
  cases hfind : table.find? fun row => row.1 = id && true with
  | none =>
    refine .inr ⟨rfl, fun hmem => ?_⟩
    obtain ⟨row, hrow, hid⟩ := List.mem_map.mp hmem
    have hnone := List.find?_eq_none.mp hfind row hrow
    simp [hid] at hnone
  | some row =>
    have hid : row.1 = id := by simpa using List.find?_some hfind
    exact .inl ⟨row.2, rfl, hid ▸ List.mem_of_find?_eq_some hfind⟩

theorem coalesceTenant_spec (old : VersionTwo) (request : OperationRequest) :
    TenantOf old request (coalesceTenant old request) := by
  have hfalse : ∀ table, selectTenant table request.targetID false = none := by
    intro table
    have hnone : table.find? (fun _ => false) = none := List.find?_eq_none.mpr (by simp)
    simp [selectTenant, hnone]
  -- at most one of the two look-ups is open
  have heq : coalesceTenant old request =
      (selectTenant (targets old request) request.targetID true).getD "default" := by
    unfold coalesceTenant targets
    by_cases hjob : request.targetType = "job"
    · simp [hjob, hfalse]
    · by_cases hdead : request.targetType = "dead_letter"
      · simp [hdead, hfalse]
      · by_cases hdag : request.targetType = "dag"
        · simp [hdag, hfalse]
        · have hempty : selectTenant [] request.targetID true = none := rfl
          simp [hjob, hdead, hdag, hfalse, hempty]
  rw [heq]
  rcases selectTenant_spec (targets old request) request.targetID with
    ⟨tenantID, hfound, hmem⟩ | ⟨hnone, hout⟩
  · rw [hfound]
    exact .inl hmem
  · rw [hnone]
    exact .inr ⟨hout, rfl⟩

theorem rows_joinAudit (consistent : Consistent old) (actions : SameActions old)
    (hevent : event ∈ old.auditEvents) :
    (joinAudit (scopedRequests old) event).map (·.row) = [event] := by
  have hone : (joinAudit (scopedRequests old) event).length = 1 := by
    unfold joinAudit scopedRequests
    rw [← List.count_eq_one_of_mem consistent.requests (consistent.reference event hevent),
      List.length_map, ← List.countP_eq_length_filter, List.countP_map, List.count, List.countP_map]
    apply List.countP_congr
    intro request hrequest
    have haction := actions event hevent request hrequest
    simpa using haction
  unfold joinAudit at hone ⊢
  rw [List.map_map, ← List.replicate_one, List.eq_replicate_iff]
  refine ⟨by simpa using hone, fun row hrow => ?_⟩
  obtain ⟨_, _, rfl⟩ := List.mem_map.mp hrow
  rfl

theorem mem_scopedEvents (h : event ∈ scopedEvents old) :
    ∃ request ∈ old.operationRequests, event.tenantID = coalesceTenant old request ∧
      request.idempotencyKey = event.row.idempotencyKey ∧ request.action = event.row.action := by
  obtain ⟨_, _, hjoined⟩ := List.mem_flatMap.mp h
  obtain ⟨found, hfound, rfl⟩ := List.mem_map.mp hjoined
  obtain ⟨hmem, hmatch⟩ := List.mem_filter.mp hfound
  obtain ⟨request, hrequest, rfl⟩ := List.mem_map.mp hmem
  exact ⟨request, hrequest, rfl, by simpa using hmatch⟩

/-- The migration succeeds, and its tables have the old rows, each with the tenant of
what its request was about, and their keys hold. -/
theorem migration_loses_nothing (old : VersionTwo) (consistent : Consistent old)
    (actions : SameActions old) :
    ∃ new, operationScope old = .ok new ∧ Keyed new ∧
      new.operationRequests.map (·.row) = old.operationRequests ∧
      (∀ request ∈ new.operationRequests, TenantOf old request.row request.tenantID) ∧
      new.auditEvents.map (·.row) = old.auditEvents ∧
      ∀ event ∈ new.auditEvents, ∃ request ∈ old.operationRequests,
        request.idempotencyKey = event.row.idempotencyKey ∧
          TenantOf old request event.tenantID := by
  have hevents : (scopedEvents old).map (·.row) = old.auditEvents := by
    unfold scopedEvents
    rw [List.map_flatMap]
    refine (List.flatMap_congr fun event hevent =>
      rows_joinAudit consistent actions hevent).trans ?_
    exact List.flatMap_singleton' _
  have keyed : Keyed ⟨scopedRequests old, scopedEvents old⟩ := by
    refine ⟨?_, ?_, ?_, fun event hevent => ?_⟩
    · refine .of_map (fun key : String × String × String => key.2.2) ?_
      rw [scopedRequests, List.map_map, List.map_map]
      exact consistent.requests
    · have hids := consistent.events
      rwa [← hevents, List.map_map] at hids
    · have hkeys := consistent.unique
      rw [← hevents, List.map_map] at hkeys
      refine .of_map (fun key : String × String × String => key.2.2) ?_
      rwa [List.map_map]
    · obtain ⟨request, hrequest, htenant, hkey, haction⟩ := mem_scopedEvents hevent
      refine List.mem_map.mpr ⟨_, List.mem_map_of_mem hrequest, ?_⟩
      simp [operationKey, auditKey, htenant, hkey, haction]
  refine ⟨_, ?_, keyed, ?_, ?_, hevents, ?_⟩
  · unfold operationScope
    rw [if_neg (not_not.mpr keyed.requests)]
    exact if_neg (not_not.mpr ⟨keyed.events, keyed.unique, keyed.reference⟩)
  · rw [scopedRequests, List.map_map]
    exact List.map_id _
  · intro request hrequest
    obtain ⟨row, _, rfl⟩ := List.mem_map.mp hrequest
    exact coalesceTenant_spec old row
  · intro event hevent
    obtain ⟨request, hrequest, htenant, hkey, _⟩ := mem_scopedEvents hevent
    exact ⟨request, hrequest, hkey, htenant ▸ coalesceTenant_spec old request⟩

/-- Requests about a job, a workflow, a dead letter and a worker, the first three of
other tenants, with their audit events. -/
def operated : VersionTwo where
  jobs := [("j", "acme"), ("l", "other")]
  dagRuns := [("w", "acme")]
  operationRequests := [
    ⟨"k", "job.cancel", "ops", "stop", "d", 5, "job", "j", none, none, "\x7b\x7d"⟩,
    ⟨"m", "dag.submit", "ops", "", "d", 6, "dag", "w", none, none, "\x7b\x7d"⟩,
    ⟨"n", "dead_letter.redrive", "ops", "", "d", 7, "dead_letter", "l", none, none, "\x7b\x7d"⟩,
    ⟨"o", "worker.drain", "ops", "", "d", 8, "worker", "w", none, none, "\x7b\x7d"⟩]
  auditEvents := [⟨"a", "k", "job.cancel", "ops", 5, "job", "j", "\x7b\x7d"⟩,
    ⟨"b", "m", "dag.submit", "ops", 6, "dag", "w", "\x7b\x7d"⟩,
    ⟨"c", "n", "dead_letter.redrive", "ops", 7, "dead_letter", "l", "\x7b\x7d"⟩,
    ⟨"d", "o", "worker.drain", "ops", 8, "worker", "w", "\x7b\x7d"⟩]

theorem migration_scopes_operated : ∃ new, operationScope operated = .ok new ∧ Keyed new := by
  obtain ⟨new, hnew, keyed, _⟩ := migration_loses_nothing operated
    ⟨by decide, by decide, by decide, by decide, by decide, by decide⟩ (by unfold SameActions; decide)
  exact ⟨new, hnew, keyed⟩

end Migration

end RailYard.Properties
