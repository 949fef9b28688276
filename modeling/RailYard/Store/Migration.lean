import RailYard.Domain.Errors
import Mathlib.Data.List.Nodup

/-! The third migration gives operator requests and their audit events a tenant.
A row holds its columns as they are stored; the new tables have the old columns and
the tenant. The rows of a table are listed in the order in which they are read. -/
namespace RailYard.Store.Migration

open RailYard.Domain

structure OperationRequest where
  idempotencyKey : String
  action : String
  actor : String
  reason : String
  requestDigest : String
  committedAt : Int
  targetType : String
  targetID : String
  targetState : Option String
  targetVersion : Option Int
  responseJSON : String

structure AuditEvent where
  id : String
  idempotencyKey : String
  action : String
  actor : String
  occurredAt : Int
  targetType : String
  targetID : String
  detailsJSON : String

/-- The tables of version 2 that the migration reads; of jobs and workflows only
their identifier and tenant. -/
structure VersionTwo where
  jobs : List (String × String)
  dagRuns : List (String × String)
  operationRequests : List OperationRequest
  auditEvents : List AuditEvent

structure Scoped (ρ : Type) where
  tenantID : String
  row : ρ

structure VersionThree where
  operationRequests : List (Scoped OperationRequest)
  auditEvents : List (Scoped AuditEvent)

def operationKey (request : Scoped OperationRequest) : String × String × String :=
  (request.tenantID, request.row.action, request.row.idempotencyKey)

def auditKey (event : Scoped AuditEvent) : String × String × String :=
  (event.tenantID, event.row.action, event.row.idempotencyKey)

/-- `SELECT tenant_id … WHERE id = target_id AND guard`. -/
def selectTenant (table : List (String × String)) (id : String) (guard : Bool) : Option String :=
  (table.find? fun row => row.1 = id && guard).map Prod.snd

/-- The first of the two look-ups that finds something, or the default. -/
def coalesceTenant (old : VersionTwo) (request : OperationRequest) : String :=
  ((selectTenant old.jobs request.targetID
      (request.targetType = "job" || request.targetType = "dead_letter")).or
    (selectTenant old.dagRuns request.targetID (request.targetType = "dag"))).getD "default"

def joinAudit (requests : List (Scoped OperationRequest)) (event : AuditEvent) :
    List (Scoped AuditEvent) :=
  (requests.filter fun request =>
    request.row.idempotencyKey = event.idempotencyKey && request.row.action = event.action).map
    fun request => ⟨request.tenantID, event⟩

def scopedRequests (old : VersionTwo) : List (Scoped OperationRequest) :=
  old.operationRequests.map fun request => ⟨coalesceTenant old request, request⟩

def scopedEvents (old : VersionTwo) : List (Scoped AuditEvent) :=
  old.auditEvents.flatMap (joinAudit (scopedRequests old))

structure Keyed (new : VersionThree) : Prop where
  requests : (new.operationRequests.map operationKey).Nodup
  events : (new.auditEvents.map fun event => event.row.id).Nodup
  unique : (new.auditEvents.map auditKey).Nodup
  reference : ∀ event ∈ new.auditEvents, auditKey event ∈ new.operationRequests.map operationKey

/-- `003_operation_scope.sql`. An insertion fails on a row that breaks a key. -/
def operationScope (old : VersionTwo) : Except Error VersionThree :=
  if ¬((scopedRequests old).map operationKey).Nodup then
    .error (.constraint "operation_requests_v3")
  else if ¬(((scopedEvents old).map fun event => event.row.id).Nodup ∧
      ((scopedEvents old).map auditKey).Nodup ∧
      ∀ event ∈ scopedEvents old, auditKey event ∈ (scopedRequests old).map operationKey) then
    .error (.constraint "audit_events_v3")
  else .ok ⟨scopedRequests old, scopedEvents old⟩

end RailYard.Store.Migration
