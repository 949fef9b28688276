import RailYard.Properties.Leases
import RailYard.Refinement.Offers

/-! The slots that a worker keeps free for recovering jobs. The store takes the
reserve off the whole offer as long as the snapshot holds no recovering job; a
single one opens all slots to everybody. -/
namespace RailYard.Properties
open Library.Transaction Domain Store
open Scheduler Lifecycle Refinement

def isNormal (db : Database) (jobID : String) : Bool :=
  !((db.jobs.get? jobID).map JobRow.recoveryPending).getD false

def normalSlots (db : Database) (leases : List Lease) : Int :=
  ((leases.filter fun lease => isNormal db lease.jobID).map Lease.slotCost).sum

def normalCost (db : Database) (grants : List Grant) : Int :=
  totalCost (grants.filter fun grant => isNormal db grant.jobID)

def unreserved (request : AcquireRequest) : Int :=
  request.availableSlots - min request.availableSlots request.recoveryReserve

variable {db : Database} {request : AcquireRequest} {now : Time}

theorem isNormal_of_ranked {entry : String × JobRow} (h : entry ∈ rankedJobs db now limit) :
    isNormal db entry.1 = !entry.2.recoveryPending := by
  have hrow := (db.jobs.mem_rows_iff entry.1 entry.2).mp (mem_rankedJobs h).1
  unfold isNormal
  rw [hrow]
  rfl

theorem normalSlots_eq (h : Leased request now db leases granted) :
    normalSlots db leases = jobsCost (granted.filter fun entry => !entry.2.recoveryPending) := by
  have hleases : normalSlots db leases = (((leases.map fun lease =>
      (lease.jobID, lease.slotCost)).filter fun pair => isNormal db pair.1).map Prod.snd).sum := by
    unfold normalSlots
    rw [List.filter_map, List.map_map]
    rfl
  rw [hleases, h.leases_eq, List.filter_map, List.map_map]
  unfold jobsCost
  congr 2
  exact List.filter_congr fun entry hentry => isNormal_of_ranked (h.ranked entry hentry)

theorem normalCost_eq {granted : List (String × JobRow)}
    (h : ∀ entry ∈ granted, entry ∈ rankedJobs db now request.limit) :
    normalCost db (granted.map grantOf) =
      jobsCost (granted.filter fun entry => !entry.2.recoveryPending) := by
  unfold normalCost
  rw [List.filter_map, totalCost_grantOf]
  congr 1
  exact List.filter_congr fun entry hentry => isNormal_of_ranked (h entry hentry)

/-- A call keeps the reserve exactly if the normal jobs that have their turn fit beside
it; with a recovering job in the snapshot all slots are offered. -/
theorem reserve_kept_iff (env : Env) (options : Options) (activities : List Activity)
    (request : AcquireRequest) (tokens : Nat → Entropy) (now : Time) (leases : List Lease)
    (db' : Database)
    (succeeds : acquire env.sha256 request tokens now (run env (freshStore options) activities).db =
      .ok leases db') :
    let db := (run env (freshStore options) activities).db
    let ranked := rankedJobs db now request.limit
    (normalSlots db leases ≤ unreserved request ↔
      normalCost db (grantsInTurn request now db) ≤ unreserved request) ∧
    ((∃ entry ∈ ranked, entry.2.recoveryPending = true) →
      offeredSlots ranked request.availableSlots request.recoveryReserve =
        request.availableSlots) := by
  intro db ranked
  have coherent : Coherent (yardOf db) := (sound_run env options activities).toCoherent
  constructor
  · obtain ⟨granted, hleased, hplanned⟩ := acquire_leased succeeds
    rw [← plannedGrants_eq env.sha256 request now coherent, hplanned, normalCost_eq hleased.ranked,
      normalSlots_eq hleased]
  · rintro ⟨entry, hentry, hrecovery⟩
    exact if_pos (List.any_eq_true.mpr ⟨entry, hentry, hrecovery⟩)

section Example

def jobIn (queue : String) (slotCost : Int) (byte : UInt8) : Activity :=
  .call ⟨.submitJob {
    job := { payload := { type := .noop }, queue := queue, slotCost := slotCost }
    actor := "api"
    idempotencyKey := newID (entropyOf byte)
    requestDigest := "digest" } (entropyOf byte), ⟨1, 0⟩⟩

/-- A lease has expired, and its job waits again; another job waits in a queue
of its own. -/
def mixedQueues : List Activity :=
  [jobIn "z" 1 1, acquireTwo, .call ⟨.reapExpired 1, ⟨20, 0⟩⟩, jobIn "a" 1 2]

def lastSlot : AcquireRequest where
  workerID := "worker"
  availableSlots := 1
  limit := 1
  leaseTTL := 10
  recoveryReserve := 1

/-- A stand-in for a hash function that tells records of different lengths
apart. -/
def lengthEnv : Env := { plainEnv with sha256 := fun bytes => [UInt8.ofNat bytes.length] }

theorem succeeds_of_commit (program : Tx α) (db : Database) (h : (commit program db).1.isOk = true) :
    Succeeds program db := by
  rcases commit_cases program db with ⟨value, db', hrun, _⟩ | ⟨error, hcommit⟩
  · exact ⟨value, db', hrun⟩
  · rw [hcommit] at h
    cases h

/-- With a second slot both jobs are leased, and the reserve is kept. -/
theorem reserve_kept_two : ∃ leases db', acquire lengthEnv.sha256
      { lastSlot with availableSlots := 2, limit := 2 } (fun index => entropyOf index.toUInt8) 30
      (run lengthEnv (freshStore defaultOptions) mixedQueues).db = .ok leases db' ∧
    normalSlots (run lengthEnv (freshStore defaultOptions) mixedQueues).db leases ≤ 1 := by
  obtain ⟨leases, db', hacquire⟩ := succeeds_of_commit (acquire lengthEnv.sha256
    { lastSlot with availableSlots := 2, limit := 2 } (fun index => entropyOf index.toUInt8) 30)
    (run lengthEnv (freshStore defaultOptions) mixedQueues).db (by decide +kernel)
  refine ⟨leases, db', hacquire, ?_⟩
  exact (reserve_kept_iff lengthEnv defaultOptions mixedQueues _ _ 30 leases db' hacquire).1.mpr
    (by decide +kernel)

/-- The normal job takes the reserved slot while the recovering one waits. -/
theorem reserve_taken : ∃ leases db', acquire lengthEnv.sha256 lastSlot
      (fun index => entropyOf index.toUInt8) 30
      (run lengthEnv (freshStore defaultOptions) mixedQueues).db = .ok leases db' ∧
    ¬normalSlots (run lengthEnv (freshStore defaultOptions) mixedQueues).db leases ≤
      unreserved lastSlot := by
  generalize hdb : (run lengthEnv (freshStore defaultOptions) mixedQueues).db = db
  have hrun : ((commit (acquire lengthEnv.sha256 lastSlot
      (fun index => entropyOf index.toUInt8) 30) db).1.map (normalSlots db)) = .ok 1 := by
    subst hdb
    decide +kernel
  rcases commit_cases (acquire lengthEnv.sha256 lastSlot
      (fun index => entropyOf index.toUInt8) 30) db with
    ⟨leases, db', hacquire, hcommit⟩ | ⟨error, hcommit⟩
  · rw [hcommit] at hrun
    refine ⟨leases, db', hacquire, ?_⟩
    rw [show normalSlots db leases = 1 from Except.ok.inj hrun]
    decide
  · rw [hcommit] at hrun
    cases hrun

end Example

end RailYard.Properties
