import RailYard.Refinement.Offers
import RailYard.Scheduler.Commitment
import RailYard.Scheduler.Stalling

/-! Calls for leases that cannot fail, and what a worker gains by asking again:
every call that grants nothing pays the queues that wait. -/
namespace RailYard.Refinement
open Library Library.Transaction Domain Store
open Scheduler Lifecycle

variable {sha256 : Hash}

section Success

variable (collisionFree : Function.Injective sha256)
include collisionFree

theorem hash_fresh {log : List Record} {input : Snapshot} {record : Record}
    (committed : Committed sha256 log) (sequence : input.sequence = log.length + 1)
    (h : newRecord sha256 previous input decision = .ok record) :
    ∀ earlier ∈ log, earlier.hash ≠ record.hash := by
  intro earlier hearlier hsame
  obtain ⟨before, after, hsplit⟩ := List.append_of_mem hearlier
  obtain ⟨_, input', hentered⟩ := committed.entered hsplit
  have hrecord := (recordOf_newRecord h).1
  rw [hentered.recordOf.hash, hrecord.hash] at hsame
  have hmaterial := JsonReader.render_injective (hexDigest_injective collisionFree hsame)
  have hinput := (hashMaterial_inj hmaterial).2.1
  have hnumber : (canonicalSnapshot input').sequence = (canonicalSnapshot input).sequence :=
    congrArg Snapshot.sequence hinput
  change input'.sequence = input.sequence at hnumber
  have hlength : log.length = before.length + (after.length + 1) := by
    rw [hsplit, List.length_append, List.length_cons]
  rw [hentered.sequence, sequence] at hnumber
  omega

theorem succeeds_persistSchedulePlan {db1 : Database} {plan : SchedulePlan}
    (journaled : Journaled sha256 db) (log : db1.decisionLog = db.decisionLog)
    (sequence : plan.input.sequence = (records db).length + 1)
    (agree : plan.input.sequence = plan.decision.sequence) :
    Succeeds (persistSchedulePlan sha256 plan now) db1 := by
  have hkept : ∀ queue (before after : Database), before.decisionLog = db.decisionLog →
      updateDeficit now queue before = .ok () after → after.decisionLog = db.decisionLog := by
    intro queue before after hbefore hrun
    obtain ⟨_, _, hupdate⟩ := bind_pure_ok hrun
    rcases update_ok hupdate with ⟨_, _, _, _, rfl⟩ | ⟨_, _, rfl⟩ <;> exact hbefore
  have hloop : ∃ db2, plan.decision.queues.forM (updateDeficit now) db1 = .ok () db2 ∧
      db2.decisionLog = db.decisionLog :=
    Succeeds.forM (motive := fun _ (state : Database) => state.decisionLog = db.decisionLog)
      (fun queue _ before hbefore => ⟨.bind (.update _ _) fun _ _ _ => .pure _,
        fun after hrun => hkept queue before after hbefore hrun⟩) log
  obtain ⟨db2, hrun, hlog⟩ := hloop
  refine .bind ⟨(), db2, hrun⟩ fun _ between hbetween => ?_
  rw [hrun] at hbetween
  cases hbetween
  refine .bind (.mutate _) fun _ _ hmutate => ?_
  rw [← mutate_ok hmutate]
  refine .bind (.query _) fun previous _ hquery => ?_
  obtain ⟨_, rfl⟩ := query_ok hquery
  obtain ⟨record, hrecord⟩ : ∃ record,
      newRecord sha256 previous plan.input plan.decision = .ok record :=
    ⟨_, if_neg (not_not.mpr agree)⟩
  rw [hrecord]
  refine .bind (.pure record) fun found _ hfound => ?_
  obtain ⟨rfl, rfl⟩ := pure_ok hfound
  refine .bind (.query _) fun fresh _ hquery => ?_
  obtain ⟨rfl, rfl⟩ := query_ok hquery
  have hnumber : record.sequence = (records db).length + 1 :=
    (recordOf_newRecord hrecord).1.sequence.trans sequence
  refine .bind (.require ?_) fun _ _ hrequire => ?_
  · rw [List.all_eq_true]
    intro entry hentry
    change entry ∈ db2.decisionLog.rows at hentry
    rw [hlog] at hentry
    rw [decide_eq_true_eq, (journaled.keyed entry hentry).2]
    exact hash_fresh collisionFree journaled.committed sequence hrecord _
      (List.mem_map_of_mem hentry)
  · rw [← (require_ok hrequire).2]
    refine .insert (Option.eq_none_iff_forall_ne_some.mpr fun row hrow => ?_)
    change db2.decisionLog.get? record.sequence = some row at hrow
    rw [hlog, ← Table.mem_rows_iff] at hrow
    have hkey : record.sequence ∈ db.decisionLog.keys := List.mem_map_of_mem hrow
    rw [journaled.keys, hnumber] at hkey
    obtain ⟨index, hindex, heq⟩ := List.mem_map.mp hkey
    rw [List.mem_range] at hindex
    omega

end Success

theorem mem_candidates (hqueue : queue ∈ buildQueues db ranked) (h : candidate ∈ queue.candidates) :
    ∃ entry ∈ ranked, queueKey entry = queue.key ∧ schedulerCandidate entry = candidate := by
  obtain ⟨key, _, hfound⟩ := List.mem_filterMap.mp hqueue
  obtain ⟨row, _, rfl⟩ := Option.map_eq_some_iff.mp hfound
  obtain ⟨entry, hentry, rfl⟩ := List.mem_map.mp h
  rw [List.mem_filter, decide_eq_true_eq] at hentry
  exact ⟨entry, hentry.1, hentry.2, rfl⟩

theorem cost_of_ranked {entry : String × JobRow} (coherent : Coherent (yardOf db))
    (h : entry ∈ rankedJobs db now limit) : 0 < entry.2.slotCost :=
  coherent.accounts.cost entry.1 entry.2
    ((db.jobs.mem_rows_iff entry.1 entry.2).mp (mem_rankedJobs h).1)

theorem succeeds_acquire (collisionFree : Function.Injective sha256)
    (coherent : Coherent (yardOf db)) (journaled : Journaled sha256 db)
    (slots : 0 ≤ request.availableSlots) (limit : 0 ≤ request.limit)
    (within : ¬Overdrawn db.tenantLimits (plannedGrants sha256 request now db)) :
    Succeeds (acquire sha256 request tokens now) db := by
  have hplan := buildSchedulePlan_eq sha256 request now db
  unfold plannedGrants at within
  by_cases hidle : Idle request now db
  · rw [if_pos hidle] at hplan
    exact ⟨_, _, bind_run hplan⟩
  · obtain ⟨decision, hdecision⟩ : ∃ decision,
        Scheduler.decide (snapshotOf sha256 request now db) = .ok decision := by
      have hoffered : 0 ≤ (snapshotOf sha256 request now db).workerSlots := by
        change 0 ≤ offeredSlots _ _ _
        unfold offeredSlots
        split <;> omega
      refine decide_isOk hoffered limit (.inr rfl) ?_
      intro queue hqueue candidate hcandidate
      obtain ⟨entry, hentry, _, rfl⟩ := mem_candidates hqueue hcandidate
      exact cost_of_ranked coherent hentry
    rw [if_neg hidle, hdecision] at hplan
    rw [hplan] at within
    obtain ⟨granted, hgranted⟩ := granted_of_decide hdecision
    have houtcome := grantLeases_outcome sha256 request now
      (planFor sha256 request now db decision) tokens 0 rfl
      (nodup_rankedJobs db now request.limit) hgranted.ranked
      (offered_of_ranked coherent hgranted.nodup hgranted.ranked)
    rw [← hgranted.grants_eq] at houtcome
    rcases houtcome with ⟨⟨leases, db1, hgrants⟩, _⟩ | ⟨_, hover⟩
    · have hlog : db1.decisionLog = db.decisionLog :=
        congrArg Fairness.log (Preserves.ok ((aloof_fairness.lives _).grantLeases _ _ _ _ _ _) hgrants)
      have hsequence : db.schedulerSeq + 1 = ((records db).length : Int) + 1 := by
        rw [journaled.counter]
      obtain ⟨_, db2, hpersist⟩ : Succeeds (persistSchedulePlan sha256
          (planFor sha256 request now db decision) now) db1 :=
        succeeds_persistSchedulePlan collisionFree journaled hlog hsequence
          (decide_ok hdecision).sequence.symm
      exact ⟨leases, db2, (bind_run hplan).trans ((bind_run hgrants).trans (bind_run hpersist))⟩
    · exact (within hover).elim

theorem nodup_keys_snapshotOf (sha256 : Hash) (request : AcquireRequest) (now : Time)
    (db : Database) : ((snapshotOf sha256 request now db).queues.map Queue.key).Nodup := by
  change ((buildQueues db (rankedJobs db now request.limit)).map
    fun queue => (queue.tenantID, queue.name)).Nodup
  rw [keys_buildQueues]
  exact (List.nodup_dedup _).filter _

/-- A worker with room for every ranked job that gets none of them: the queues
were paid and are still short of a head. -/
theorem acquire_stalls (sound : Sound (yardOf db)) (limit : 0 < request.limit)
    (roomy : ∀ entry ∈ rankedJobs db now request.limit, entry.2.slotCost ≤
      offeredSlots (rankedJobs db now request.limit) request.availableSlots
        request.recoveryReserve)
    (h : acquire sha256 request tokens now db = .ok [] db') :
    yardOf db' = yardOf db ∧ ∀ entry ∈ rankedJobs db now request.limit,
      deficitOf db (queueKey entry) < deficitOf db' (queueKey entry) ∧
      ∃ other ∈ rankedJobs db now request.limit,
        deficitOf db' (queueKey entry) < other.2.slotCost := by
  have hyard : yardOf db' = yardOf db := by
    exact (acquire_any h).eq_of_nil
  refine ⟨hyard, fun entry hentry => ?_⟩
  have hpositive := cost_of_ranked sound.toCoherent hentry
  have hslots := roomy entry hentry
  rcases acquire_logs sound h with ⟨hidle, _⟩ | ⟨record, hlogged⟩
  · rcases hidle with hempty | hzero
    · rw [List.isEmpty_iff] at hempty
      rw [hempty] at hentry
      exact (List.not_mem_nil hentry).elim
    · omega
  · have hnone : record.decision.grants = [] :=
      List.map_eq_nil_iff.mp hlogged.leases.symm
    obtain ⟨state, hstate⟩ :=
      Option.isSome_iff_exists.mp (isReady_iff.mp (mem_rankedJobs hentry).2).2.2.2.2
    obtain ⟨queue, hqueue, hkey, hdeficit, hmem⟩ :
        ∃ queue ∈ (snapshotOf sha256 request now db).queues, queue.key = queueKey entry ∧
          queue.deficit = deficitOf db (queueKey entry) ∧
          schedulerCandidate entry ∈ queue.candidates := by
      refine ⟨_, List.mem_filterMap.mpr ⟨queueKey entry,
        List.mem_dedup.mpr (List.mem_map_of_mem hentry), by rw [hstate, Option.map_some]⟩, rfl, ?_,
        List.mem_map_of_mem (List.mem_filter.mpr ⟨hentry, decide_eq_true rfl⟩)⟩
      unfold deficitOf
      rw [hstate]
      rfl
    have hroomy : ∀ queue ∈ (snapshotOf sha256 request now db).queues,
        ∀ candidate ∈ queue.candidates,
          candidate.slotCost ≤ (snapshotOf sha256 request now db).workerSlots := by
      intro other hother candidate hcandidate
      obtain ⟨job, hjob, _, rfl⟩ := mem_candidates hother hcandidate
      exact roomy job hjob
    obtain ⟨deficit, hafter, hmore, candidate, hcandidate, hless⟩ :=
      decide_stalled hlogged.decided (nodup_keys_snapshotOf sha256 request now db)
        (Int.lt_of_lt_of_le hpositive hslots) limit hroomy hnone hqueue
        (List.ne_nil_of_mem hmem)
    obtain ⟨job, hjob, _, rfl⟩ := mem_candidates hqueue hcandidate
    rw [hkey] at hafter
    rw [hlogged.deficits, hafter, Option.getD_some, ← hdeficit]
    exact ⟨hmore, job, hjob, hless⟩

end RailYard.Refinement
