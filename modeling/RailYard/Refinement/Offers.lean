import RailYard.Refinement.Decisions

/-! The leases of a call as the jobs they were granted for: jobs of the
snapshot, each at most once, that fit together into the slots offered. -/
namespace RailYard.Refinement
open Library.Transaction Domain Store
open Scheduler

variable {db db' : Database} {now : Time} {sha256 : Hash} {request : AcquireRequest}
  {tokens : Nat → Entropy} {leases : List Lease} {granted : List (String × JobRow)}

def jobsCost (jobs : List (String × JobRow)) : Int := (jobs.map fun entry => entry.2.slotCost).sum

@[simp] theorem jobsCost_nil : jobsCost [] = 0 := rfl

@[simp] theorem jobsCost_cons (entry : String × JobRow) (jobs : List (String × JobRow)) :
    jobsCost (entry :: jobs) = entry.2.slotCost + jobsCost jobs := rfl

theorem totalCost_grantOf (jobs : List (String × JobRow)) :
    totalCost (jobs.map grantOf) = jobsCost jobs := by
  unfold totalCost jobsCost
  rw [List.map_map]
  rfl

structure Leased (request : AcquireRequest) (now : Time) (db : Database) (leases : List Lease)
    (granted : List (String × JobRow)) : Prop where
  ranked : ∀ entry ∈ granted, entry ∈ rankedJobs db now request.limit
  nodup : (granted.map Prod.fst).Nodup
  leases_eq : leases.map (fun lease => (lease.jobID, lease.slotCost)) =
    granted.map fun entry => (entry.1, entry.2.slotCost)
  worker : ∀ lease ∈ leases, lease.workerID = request.workerID
  fits : granted ≠ [] → jobsCost granted ≤
    offeredSlots (rankedJobs db now request.limit) request.availableSlots request.recoveryReserve

theorem grantLeases_costs {plan : SchedulePlan} {index : Nat} {ranked : List (String × JobRow)}
    (candidates : plan.candidates = ranked.map leaseCandidate)
    (nodup : (ranked.map Prod.fst).Nodup) (subset : ∀ entry ∈ granted, entry ∈ ranked)
    (h : grantLeases sha256 request now plan tokens index (granted.map grantOf) db =
      .ok leases db') :
    leases.map (fun lease => (lease.jobID, lease.slotCost)) =
      granted.map (fun entry => (entry.1, entry.2.slotCost)) ∧
    ∀ lease ∈ leases, lease.workerID = request.workerID := by
  induction granted generalizing index db leases with
  | nil =>
    obtain ⟨rfl, _⟩ := pure_ok h
    exact ⟨rfl, fun _ hlease => (List.not_mem_nil hlease).elim⟩
  | cons entry granted ih =>
    rw [List.forall_mem_cons] at subset
    obtain ⟨lease, db1, hlease, h⟩ := bind_ok h
    obtain ⟨others, db2, hothers, h⟩ := bind_ok h
    obtain ⟨rfl, rfl⟩ := pure_ok h
    unfold grantLease at hlease
    rw [candidates, find_leaseCandidate nodup subset.1] at hlease
    obtain ⟨hid, hcost, hworker, _⟩ := scheduleCandidate_lease hlease
    obtain ⟨hrest, hworkers⟩ := ih subset.2 hothers
    refine ⟨?_, List.forall_mem_cons.mpr ⟨hworker, hworkers⟩⟩
    rw [List.map_cons, List.map_cons, hrest, hid, hcost]
    rfl

theorem acquire_leased (h : acquire sha256 request tokens now db = .ok leases db') :
    ∃ granted, Leased request now db leases granted ∧
      plannedGrants sha256 request now db = granted.map grantOf := by
  unfold acquire at h
  obtain ⟨found, before, hplan, h⟩ := bind_ok h
  have heq := buildSchedulePlan_eq sha256 request now db
  rw [hplan] at heq
  unfold plannedGrants
  rw [hplan]
  split at heq
  · cases heq
    obtain ⟨rfl, _⟩ := pure_ok h
    exact ⟨[], ⟨by simp, by simp, rfl, by simp, fun hne => (hne rfl).elim⟩, rfl⟩
  · split at heq
    · next decision hdecision =>
      cases heq
      obtain ⟨leases', db1, hgrants, h⟩ := bind_ok h
      obtain ⟨_, _, _, h⟩ := bind_ok h
      obtain ⟨rfl, _⟩ := pure_ok h
      obtain ⟨granted, hgranted⟩ := granted_of_decide hdecision
      dsimp only at hgrants
      rw [hgranted.grants_eq] at hgrants
      obtain ⟨hcosts, hworkers⟩ :=
        grantLeases_costs rfl (nodup_rankedJobs db now request.limit) hgranted.ranked hgrants
      refine ⟨granted, ⟨hgranted.ranked, hgranted.nodup, hcosts, hworkers, fun _ => ?_⟩,
        hgranted.grants_eq⟩
      · rw [← totalCost_grantOf, ← hgranted.grants_eq]
        exact (decide_ok hdecision).fits
    · cases heq

end RailYard.Refinement
