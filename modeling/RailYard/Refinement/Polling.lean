import RailYard.Refinement.Service
import RailYard.Server.Workers

/-! Polls of the store by the server, when one job is left to be run: the call
cannot fail, and it grants the job or brings its queue nearer to it. -/
namespace RailYard.Refinement
open Library.Transaction Domain Store
open Scheduler Lifecycle

variable {env : Env} {sha256 : Hash} {db db' : Database} {now : Time} {id : String} {row : JobRow}
  {request : AcquireRequest} {tokens : Nat → Entropy} {leases : List Lease}

theorem mem_plannedGrants (h : grant ∈ plannedGrants sha256 request now db) :
    ∃ entry ∈ rankedJobs db now request.limit, grantOf entry = grant := by
  unfold plannedGrants at h
  have hplan := buildSchedulePlan_eq sha256 request now db
  split at hplan
  · rw [hplan] at h
    exact (List.not_mem_nil h).elim
  · split at hplan
    · next decision hdecision =>
      rw [hplan] at h
      obtain ⟨granted, hgranted⟩ := granted_of_decide hdecision
      change grant ∈ decision.grants at h
      rw [hgranted.grants_eq] at h
      obtain ⟨entry, hentry, rfl⟩ := List.mem_map.mp h
      exact ⟨entry, hgranted.ranked entry hentry, rfl⟩
    · rw [hplan] at h
      exact (List.not_mem_nil h).elim

theorem early_eq_none (h : request.early = none) : request.workerID ≠ "" ∧
    1 ≤ request.availableSlots ∧ 1 ≤ request.limit ∧ 0 ≤ request.recoveryReserve := by
  unfold AcquireRequest.early at h
  split_ifs at h with hid hidle
  refine ⟨hid, ?_⟩
  omega

structure Alone (id : String) (row : JobRow) (db : Database) : Prop where
  found : db.jobs.get? id = some row
  ended : ∀ other found, db.jobs.get? other = some found → other ≠ id →
    found.state.terminal = true
  uncapped : ∃ limits, db.tenantLimits.get? row.tenantID = some limits ∧ limits.maxSlots = 0

theorem Alone.same (h : Alone id row db) (heq : yardOf db' = yardOf db) : Alone id row db' := by
  obtain ⟨hfound, hended, huncapped⟩ := h
  have hjobs : db'.jobs = db.jobs := congrArg Yard.jobs heq
  have htenants : db'.tenantLimits = db.tenantLimits := congrArg Yard.tenants heq
  rw [← hjobs] at hfound hended
  rw [← htenants] at huncapped
  exact ⟨hfound, hended, huncapped⟩

theorem Alone.eq_of_ready (h : Alone id row db) {entry : String × JobRow}
    (hmem : entry ∈ db.jobs.rows) (hready : isReady db now entry = true) : entry = (id, row) := by
  have hrow := (db.jobs.mem_rows_iff entry.1 entry.2).mp hmem
  have hid : entry.1 = id := by
    by_contra hother
    have hterminal := h.ended entry.1 entry.2 hrow hother
    rw [(isReady_iff.mp hready).1] at hterminal
    cases hterminal
  rw [hid, h.found, Option.some.injEq] at hrow
  exact Prod.ext hid hrow.symm

theorem Alone.eq_of_ranked (h : Alone id row db) {entry : String × JobRow}
    (hentry : entry ∈ rankedJobs db now limit) : entry = (id, row) :=
  h.eq_of_ready (mem_rankedJobs hentry).1 (mem_rankedJobs hentry).2

theorem Alone.ranked (h : Alone id row db) (coherent : Coherent (yardOf db))
    (pending : row.state = .pending) (ready : 0 < row.readySeq)
    (available : row.availableAt ≤ timeToDB now) (positive : 0 < limit) :
    (id, row) ∈ rankedJobs db now limit := by
  obtain ⟨limits, hlimits, hmax⟩ := h.uncapped
  have hmem : (id, row) ∈ db.jobs.rows := (db.jobs.mem_rows_iff id row).mpr h.found
  have hqueue : (db.queueState.get? (queueKey (id, row))).isSome := by
    have hsome := coherent.accounts.queueExists id row h.found
    change (activeSlots db.queueState (queueKey (id, row))).isSome at hsome
    unfold activeSlots at hsome
    rwa [Option.isSome_map] at hsome
  have hready : isReady db now (id, row) = true :=
    isReady_iff.mpr ⟨pending, ready, available, ⟨limits, hlimits, .inl hmax⟩, hqueue⟩
  unfold rankedJobs
  rw [List.mem_insertionSort, List.mem_filter, List.mem_filter, decide_eq_true_eq]
  refine ⟨⟨hmem, hready⟩, ?_⟩
  have hnone : predecessors (db.jobs.rows.filter (isReady db now)) (id, row) = [] := by
    refine List.filter_eq_nil_iff.mpr fun other hother hbefore => ?_
    obtain ⟨hrow, hother⟩ := List.mem_filter.mp hother
    have hsame := h.eq_of_ready hrow hother
    rw [hsame] at hbefore
    simp [candidateLess] at hbefore
  rw [hnone]
  exact positive

def offeredTo (row : JobRow) (request : AcquireRequest) : Int :=
  if row.recoveryPending then request.availableSlots
  else request.availableSlots - min request.availableSlots request.recoveryReserve

theorem Alone.offered (h : Alone id row db) (hranked : (id, row) ∈ rankedJobs db now limit) :
    offeredSlots (rankedJobs db now limit) request.availableSlots request.recoveryReserve =
      offeredTo row request := by
  have hany : (rankedJobs db now limit).any (fun entry => entry.2.recoveryPending) =
      row.recoveryPending := by
    rw [Bool.eq_iff_iff, List.any_eq_true]
    constructor
    · rintro ⟨entry, hentry, hrecovery⟩
      rwa [h.eq_of_ranked hentry] at hrecovery
    · exact fun hrecovery => ⟨_, hranked, hrecovery⟩
  unfold offeredSlots offeredTo
  rw [hany]

theorem Alone.not_overdrawn (h : Alone id row db) :
    ¬Overdrawn db.tenantLimits (plannedGrants sha256 request now db) := by
  rintro ⟨grant, hgrant, limits, hlimits, hcapped, _⟩
  obtain ⟨entry, hentry, rfl⟩ := mem_plannedGrants hgrant
  rw [h.eq_of_ranked hentry] at hlimits
  obtain ⟨found, hfound, hmax⟩ := h.uncapped
  change db.tenantLimits.get? row.tenantID = some limits at hlimits
  rw [hfound, Option.some.injEq] at hlimits
  exact hcapped (hlimits ▸ hmax)

theorem Alone.leased (h : Alone id row db) (hrun : acquire sha256 request tokens now db =
    .ok leases db') : leases = [] ∨ ((∃ lease ∈ leases, lease.jobID = id) ∧
      row.slotCost ≤ offeredTo row request) := by
  obtain ⟨granted, hleased, _⟩ := acquire_leased hrun
  cases granted with
  | nil => exact .inl (List.map_eq_nil_iff.mp hleased.leases_eq)
  | cons entry rest =>
    right
    obtain rfl := h.eq_of_ranked (hleased.ranked entry (List.mem_cons_self ..))
    have hranked := hleased.ranked _ (List.mem_cons_self ..)
    refine ⟨?_, ?_⟩
    · have hmem : (id, row.slotCost) ∈ leases.map fun lease => (lease.jobID, lease.slotCost) := by
        rw [hleased.leases_eq]
        exact List.mem_map_of_mem (List.mem_cons_self ..)
      obtain ⟨lease, hlease, heq⟩ := List.mem_map.mp hmem
      exact ⟨lease, hlease, congrArg Prod.fst heq⟩
    · -- A second grant would be for the same job.
      have hrest : rest = [] := by
        refine List.eq_nil_iff_forall_not_mem.mpr fun other hother => ?_
        obtain rfl := h.eq_of_ranked (hleased.ranked other (List.mem_cons_of_mem _ hother))
        exact (List.nodup_cons.mp hleased.nodup).1 (List.mem_map_of_mem hother)
      have hfits := hleased.fits (List.cons_ne_nil _ _)
      rw [hrest, jobsCost_cons, jobsCost_nil, add_zero, h.offered hranked] at hfits
      exact hfits

theorem acquire_alone (collisionFree : Function.Injective sha256) (sound : Sound (yardOf db))
    (journaled : Journaled sha256 db) (h : Alone id row db) (pending : row.state = .pending)
    (ready : 0 < row.readySeq) (available : row.availableAt ≤ timeToDB now)
    (slots : 0 ≤ request.availableSlots) (limit : 0 < request.limit)
    (fits : row.slotCost ≤ offeredTo row request) :
    ∃ leases db', acquire sha256 request tokens now db = .ok leases db' ∧
      ((∃ lease ∈ leases, lease.jobID = id) ∨ (leases = [] ∧ yardOf db' = yardOf db ∧
        deficitOf db (queueKey (id, row)) < deficitOf db' (queueKey (id, row)) ∧
        deficitOf db' (queueKey (id, row)) < row.slotCost)) := by
  obtain ⟨leases, db', hrun⟩ : Succeeds (acquire sha256 request tokens now) db :=
    succeeds_acquire collisionFree sound.toCoherent journaled slots limit.le h.not_overdrawn
  refine ⟨leases, db', hrun, ?_⟩
  rcases h.leased hrun with rfl | ⟨hlease, _⟩
  · right
    have hranked := h.ranked sound.toCoherent pending ready available limit
    have hroomy : ∀ entry ∈ rankedJobs db now request.limit, entry.2.slotCost ≤
        offeredSlots (rankedJobs db now request.limit) request.availableSlots
          request.recoveryReserve := by
      intro entry hentry
      rw [h.eq_of_ranked hentry, h.offered hranked]
      exact fits
    obtain ⟨hyard, hstalls⟩ := acquire_stalls sound limit hroomy hrun
    obtain ⟨hmore, other, hother, hless⟩ := hstalls _ hranked
    rw [h.eq_of_ranked hother] at hless
    exact ⟨rfl, hyard, hmore, hless⟩
  · exact .inl hlease

end RailYard.Refinement
