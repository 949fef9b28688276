import RailYard.Refinement.Abstraction
import RailYard.Refinement.Writes

/-! The records of requests. A request that finds its record is answered from it
and changes nothing. None of what requests leave beside jobs shows in the yard:
records, control actions, audit events and DAG rows. -/
namespace RailYard.Refinement
open Library.Transaction Domain Store

variable {α : Type}

theorem readIdempotency_bind
    (h : (readIdempotency tenantID key kind digest >>= next) db = .ok value db') :
    (∃ row, db.idempotencyRequests.get? (tenantID, key) = some row ∧
      next (some row.response) db = .ok value db') ∨
    db.idempotencyRequests.get? (tenantID, key) = none ∧ next none db = .ok value db' :=
  record_bind h rfl fun _ => rfl

theorem readControlAction_bind
    (h : (readControlAction tenantID key action digest >>= next) db = .ok value db') :
    (∃ row, db.operationRequests.get? (tenantID, action, key) = some row ∧
      next (some row.response) db = .ok value db') ∨
    db.operationRequests.get? (tenantID, action, key) = none ∧ next none db = .ok value db' :=
  record_bind h rfl fun _ => rfl

theorem readIdempotency_none (h : db.idempotencyRequests.get? (tenantID, key) = none) :
    readIdempotency tenantID key kind digest db = .ok none db :=
  bind_run (select_absent h)

theorem readControlAction_none (h : db.operationRequests.get? (tenantID, action, key) = none) :
    readControlAction tenantID key action digest db = .ok none db :=
  bind_run (select_absent h)

theorem readIdempotency_fresh (habsent : db.idempotencyRequests.get? (tenantID, key) = none)
    (h : (readIdempotency tenantID key kind digest >>= next) db = .ok value db') :
    next none db = .ok value db' :=
  (bind_run (readIdempotency_none habsent)).symm.trans h

theorem readControlAction_fresh (habsent : db.operationRequests.get? (tenantID, action, key) = none)
    (h : (readControlAction tenantID key action digest >>= next) db = .ok value db') :
    next none db = .ok value db' :=
  (bind_run (readControlAction_none habsent)).symm.trans h

section Yard

theorem yard_filed (now : Time) : Filed now (Unchanged yardOf) :=
  ⟨fun _ _ _ _ _ => rfl, fun _ _ _ _ _ => rfl⟩

theorem yard_recordIdempotency (h : recordIdempotency tenantID key row db = .ok () db') :
    yardOf db' = yardOf db :=
  Preserves.ok (relates_recordIdempotency (fun _ _ => rfl) _ _ _) h

theorem yard_insertControlAction (h : insertControlAction sha256 action db = .ok () db') :
    yardOf db' = yardOf db :=
  Preserves.ok (relates_insertControlAction (yard_filed action.committedAt) _ rfl) h

theorem yard_insertDag (id : String) (row : DagRow) : Preserves yardOf (insertDag id row) :=
  .bind (.query _) fun _ => .bind (.require _ _) fun _ => .insert (fun _ _ => rfl) _ _ _

theorem yard_insertDagNode (dagID : String) (node : DagNode) :
    Preserves yardOf (insertDagNode dagID node) :=
  .bind (.query _) fun _ => .bind (.require _ _) fun _ => .insert (fun _ _ => rfl) _ _ _

end Yard

end RailYard.Refinement
