import RailYard.Properties.Leases
import RailYard.Refinement.Capacity

/-! Whether the grants of one scheduling decision can be reserved. The snapshot
lets a job in if it alone fits under its tenant's cap, so two jobs of a tenant
can be granted that do not fit together, and then the whole call fails. -/
namespace RailYard.Properties
open Library.Transaction Domain Store
open Scheduler Lifecycle Refinement

def CapacityChanged (sha256 : Hash) (request : AcquireRequest) (tokens : Nat → Entropy)
    (now : Time) (db : Database) : Prop :=
  ∃ id db', acquire sha256 request tokens now db =
    .error (.about "scheduler capacity changed for job %q" [id]) db'

/-- For every reachable state and every call, acquisition fails for want of
capacity exactly if the jobs of one capped tenant that have their turn go over its
cap together. -/
theorem acquire_reservable (env : Env) (options : Options) (activities : List Activity)
    (request : AcquireRequest) (tokens : Nat → Entropy) (now : Time) :
    let db := (run env (freshStore options) activities).db
    CapacityChanged env.sha256 request tokens now db ↔
      Overdrawn db.tenantLimits (grantsInTurn request now db) := by
  intro db
  have coherent : Coherent (yardOf db) := (sound_run env options activities).toCoherent
  rw [← plannedGrants_eq env.sha256 request now coherent]
  exact acquire_capacityChanged_iff coherent

def oneSlotOptions : Options :=
  { defaultOptions with defaultTenantSlots := 1, slotsNonnegative := by decide }

/-- Two jobs of a tenant with one slot are granted together, and neither of
them is leased. -/
theorem two_jobs_one_slot : CapacityChanged plainEnv.sha256
    { workerID := "worker", availableSlots := 2, limit := 2, leaseTTL := 10 }
    (fun index => entropyOf index.toUInt8) 5
    (run plainEnv (freshStore oneSlotOptions) [plainJob 1 [], plainJob 2 []]).db := by
  refine ⟨newID (entropyOf 2), commit_error ?_⟩
  decide +kernel

end RailYard.Properties
