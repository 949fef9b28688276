import RailYard.Refinement.Acquisition
import RailYard.Refinement.Progress
import RailYard.Scheduler.Turns

/-! When the grants of a decision can all be reserved. The snapshot checks each
job against the cap of its tenant on its own, the scheduler knows only the
worker's slots, and a reservation checks the cap again; so a reservation fails
exactly if the grants of one tenant together go over its cap. -/
namespace RailYard.Refinement
open Library Library.Transaction Domain Store
open Scheduler Lifecycle

def grantOf (entry : String × JobRow) : Grant := (schedulerCandidate entry).grant

theorem perm_flatMap_filter {α κ : Type} [DecidableEq κ] (key : α → κ) (items : List α)
    {keys : List κ} (nodup : keys.Nodup) (covered : ∀ item ∈ items, key item ∈ keys) :
    (keys.flatMap fun k => items.filter fun item => key item = k).Perm items := by
  induction keys generalizing items with
  | nil =>
    have hnil : items = [] :=
      List.eq_nil_iff_forall_not_mem.mpr fun item hitem => (List.not_mem_nil (covered item hitem))
    rw [hnil]
    exact .refl _
  | cons k keys ih =>
    rw [List.nodup_cons] at nodup
    have hrest := ih (items.filter fun item => ¬key item = k) nodup.2 (by
      intro item hitem
      simp only [List.mem_filter, decide_not, Bool.not_eq_true', decide_eq_false_iff_not] at hitem
      exact (List.mem_cons.mp (covered item hitem.1)).resolve_left hitem.2)
    have hsame : (keys.flatMap fun k' => items.filter fun item => key item = k') =
        keys.flatMap fun k' =>
          (items.filter fun item => ¬key item = k).filter fun item => key item = k' := by
      apply List.flatMap_congr
      intro k' hk'
      rw [List.filter_filter]
      apply List.filter_congr
      intro item _
      by_cases hkey : key item = k'
      · have hne : ¬key item = k := by
          intro heq
          exact nodup.1 (heq ▸ hkey ▸ hk')
        simp [hkey]
        exact fun heq => hne (hkey.trans heq)
      · simp [hkey]
    rw [List.flatMap_cons, hsame]
    refine (hrest.append_left _).trans ?_
    have hsplit := List.filter_append_perm (fun item => decide (key item = k)) items
    simpa using hsplit

theorem flatMap_filterMap_of_isSome {α β γ : Type} {keys : List α} {find : α → Option β}
    {content : β → List γ} {expected : α → List γ}
    (found : ∀ key ∈ keys, ∃ value, find key = some value ∧ content value = expected key) :
    (keys.filterMap find).flatMap content = keys.flatMap expected := by
  induction keys with
  | nil => rfl
  | cons key keys ih =>
    rw [List.forall_mem_cons] at found
    obtain ⟨value, hfind, hcontent⟩ := found.1
    rw [List.filterMap_cons_some hfind, List.flatMap_cons, List.flatMap_cons, hcontent,
      ih found.2]

theorem waiting_buildQueues {ranked : List (String × JobRow)}
    (h : ∀ entry ∈ ranked, (db.queueState.get? (queueKey entry)).isSome) :
    (waiting (buildQueues db ranked)).Perm (ranked.map grantOf) := by
  have hflat : waiting (buildQueues db ranked) = (ranked.map queueKey).dedup.flatMap fun key =>
        (ranked.filter fun entry => queueKey entry = key).map grantOf := by
    apply flatMap_filterMap_of_isSome
    intro key hkey
    obtain ⟨entry, hentry, rfl⟩ := List.mem_map.mp (List.mem_dedup.mp hkey)
    obtain ⟨queue, hqueue⟩ := Option.isSome_iff_exists.mp (h entry hentry)
    refine ⟨_, by rw [hqueue, Option.map_some], ?_⟩
    rw [List.map_map]
    rfl
  rw [hflat, ← List.map_flatMap]
  refine (perm_flatMap_filter queueKey ranked (List.nodup_dedup _) ?_).map grantOf
  intro entry hentry
  exact List.mem_dedup.mpr (List.mem_map_of_mem hentry)

theorem isReady_iff {entry : String × JobRow} : isReady db now entry = true ↔
    entry.2.state = .pending ∧ 0 < entry.2.readySeq ∧ entry.2.availableAt ≤ timeToDB now ∧
      (∃ limits, db.tenantLimits.get? entry.2.tenantID = some limits ∧
        (limits.maxSlots = 0 ∨ limits.activeSlots + entry.2.slotCost ≤ limits.maxSlots)) ∧
      (db.queueState.get? (queueKey entry)).isSome := by
  unfold isReady
  cases db.tenantLimits.get? entry.2.tenantID <;> simp [and_assoc]

theorem nodup_rankedJobs (db : Database) (now : Time) (limit : Int) :
    ((rankedJobs db now limit).map Prod.fst).Nodup := by
  unfold rankedJobs
  rw [((List.perm_insertionSort _ _).map Prod.fst).nodup_iff, List.filter_filter]
  exact db.jobs.nodupKeys_filter _

structure GrantedFrom (ranked : List (String × JobRow)) (grants : List Grant)
    (granted : List (String × JobRow)) : Prop where
  grants_eq : grants = granted.map grantOf
  ranked : ∀ entry ∈ granted, entry ∈ ranked
  nodup : (granted.map Prod.fst).Nodup

theorem exists_grantedFrom (nodup : (ranked.map Prod.fst).Nodup)
    (h : (grants ++ rest).Perm (ranked.map grantOf)) :
    ∃ granted, GrantedFrom ranked grants granted := by
  have hids : (grants.map Grant.jobID).Nodup := by
    have hall : ((grants ++ rest).map Grant.jobID).Nodup := by
      rw [(h.map Grant.jobID).nodup_iff, List.map_map]
      exact nodup
    rw [List.map_append] at hall
    exact hall.of_append_left
  have hmem : ∀ grant ∈ grants, ∃ entry ∈ ranked, grantOf entry = grant := fun grant hgrant =>
    List.mem_map.mp (h.subset (List.mem_append_left rest hgrant))
  clear h
  induction grants with
  | nil => exact ⟨[], rfl, by simp, by simp⟩
  | cons grant grants ih =>
    rw [List.forall_mem_cons] at hmem
    obtain ⟨⟨entry, hentry, rfl⟩, hmem⟩ := hmem
    rw [List.map_cons, List.nodup_cons] at hids
    obtain ⟨granted, hgranted⟩ := ih hids.2 hmem
    refine ⟨entry :: granted, ?_, ?_, ?_⟩
    · rw [List.map_cons, ← hgranted.grants_eq]
    · exact List.forall_mem_cons.mpr ⟨hentry, hgranted.ranked⟩
    · rw [List.map_cons, List.nodup_cons]
      refine ⟨fun hin => hids.1 ?_, hgranted.nodup⟩
      rw [hgranted.grants_eq, List.map_map]
      exact hin

theorem waiting_rankedJobs (db : Database) (now : Time) (limit : Int) :
    (waiting (buildQueues db (rankedJobs db now limit))).Perm
      ((rankedJobs db now limit).map grantOf) :=
  waiting_buildQueues fun _ hentry => (isReady_iff.mp (mem_rankedJobs hentry).2).2.2.2.2

theorem granted_of_decide (h : Scheduler.decide (snapshotOf sha256 request now db) = .ok decision) :
    ∃ granted, GrantedFrom (rankedJobs db now request.limit) decision.grants granted := by
  obtain ⟨rest, hrest⟩ := (decide_ok h).granted
  exact exists_grantedFrom (nodup_rankedJobs db now request.limit)
    (hrest.trans (waiting_rankedJobs db now request.limit))

theorem find_leaseCandidate {ranked : List (String × JobRow)} {entry : String × JobRow}
    (nodup : (ranked.map Prod.fst).Nodup) (h : entry ∈ ranked) :
    (ranked.map leaseCandidate).find? (fun candidate => candidate.jobID = (grantOf entry).jobID) =
      some (leaseCandidate entry) := by
  induction ranked with
  | nil => exact (List.not_mem_nil h).elim
  | cons first ranked ih =>
    rw [List.map_cons, List.nodup_cons] at nodup
    rw [List.map_cons]
    rcases List.mem_cons.mp h with rfl | hmem
    · exact List.find?_cons_of_pos (decide_eq_true rfl)
    · rw [List.find?_cons_of_neg, ih nodup.2 hmem]
      rw [decide_eq_true_eq]
      intro heq
      have hid : first.1 = entry.1 := heq
      exact nodup.1 (hid ▸ List.mem_map_of_mem hmem)

def capacityChanged (jobID : String) : Error :=
  .about "scheduler capacity changed for job %q" [jobID]

def tenantCost (tenantID : String) (grants : List Grant) : Int :=
  totalCost (grants.filter fun grant => grant.tenantID = tenantID)

theorem tenantCost_cons (tenantID : String) (grant : Grant) (grants : List Grant) :
    tenantCost tenantID (grant :: grants) =
      (if grant.tenantID = tenantID then grant.slotCost else 0) + tenantCost tenantID grants := by
  unfold tenantCost
  by_cases h : grant.tenantID = tenantID <;> simp [h]

def Overdrawn (tenants : Table String TenantRow) (grants : List Grant) : Prop :=
  ∃ grant ∈ grants, ∃ limits, tenants.get? grant.tenantID = some limits ∧ limits.maxSlots ≠ 0 ∧
    limits.maxSlots < limits.activeSlots + tenantCost grant.tenantID grants

structure Offered (db : Database) (granted : List (String × JobRow)) : Prop where
  coherent : Coherent (yardOf db)
  nodup : (granted.map Prod.fst).Nodup
  row : ∀ entry ∈ granted, db.jobs.get? entry.1 = some entry.2
  pending : ∀ entry ∈ granted, entry.2.state = .pending
  ready : ∀ entry ∈ granted, 0 < entry.2.readySeq

section Reserve

variable {entry : String × JobRow}

theorem scheduleCandidate_refused (hlimits : db.tenantLimits.get? entry.2.tenantID = some limits)
    (capped : limits.maxSlots ≠ 0)
    (full : limits.maxSlots < limits.activeSlots + entry.2.slotCost) :
    scheduleCandidate sha256 request now token (leaseCandidate entry) db =
      .error (capacityChanged entry.1) db := by
  have hreserve : reserveSlots entry.2.tenantID entry.2.queueName entry.2.slotCost now db =
      .ok false db := by
    unfold reserveSlots
    rw [bind_run (update_run_refused _ ?_)]
    · rfl
    · intro row hrow
      rw [show tenantLimits.read db = db.tenantLimits from rfl, hlimits, Option.some.injEq] at hrow
      subst hrow
      simp [capped, full]
  exact (bind_run hreserve).trans (bind_run_error (require_run_error _ _ Bool.false_ne_true))

theorem succeeds_insertAttempt {id : String} {attempt : AttemptRow}
    (generation : attempt.leaseGeneration = attemptNo)
    (bound : ∀ number found, db.attempts.get? (id, number) = some found →
      number < attemptNo ∧ found.leaseGeneration = number) :
    Succeeds (insertAttempt id attemptNo attempt) db := by
  refine .bind (.query _) fun _ _ hquery => ?_
  obtain ⟨rfl, rfl⟩ := query_ok hquery
  refine .bind (.require ?_) fun _ _ hrequire => ?_
  · rw [List.all_eq_true]
    rintro ⟨⟨owner, number⟩, found⟩ hmem
    rw [Table.mem_rows_iff] at hmem
    simp only [ne_eq, decide_not, Bool.or_eq_true, Bool.not_eq_true', decide_eq_false_iff_not]
    by_cases howner : owner = id
    · subst howner
      obtain ⟨hless, hfound⟩ := bound number found hmem
      right
      rw [generation, hfound]
      omega
    · exact .inl howner
  · rw [← (require_ok hrequire).2]
    refine .insert (Option.eq_none_iff_forall_ne_some.mpr fun found hfound => ?_)
    have hless := (bound attemptNo found hfound).1
    omega

theorem succeeds_scheduleCandidate (offered : Offered db (entry :: granted))
    (hlimits : db.tenantLimits.get? entry.2.tenantID = some limits)
    (fits : limits.maxSlots = 0 ∨ limits.activeSlots + entry.2.slotCost ≤ limits.maxSlots) :
    Succeeds (scheduleCandidate sha256 request now token (leaseCandidate entry)) db := by
  have hmem : entry ∈ entry :: granted := List.mem_cons_self ..
  have hrow := offered.row entry hmem
  have hgeneration := (offered.coherent.fences.generation entry.1 entry.2 hrow).1
  obtain ⟨active, hactive⟩ := Option.isSome_iff_exists.mp
    (offered.coherent.accounts.queueExists entry.1 entry.2 hrow)
  obtain ⟨queue, hqueue, _⟩ := Option.map_eq_some_iff.mp hactive
  obtain ⟨db1, hreserve⟩ : ∃ db1, reserveSlots entry.2.tenantID entry.2.queueName
      entry.2.slotCost now db = .ok true db1 := by
    unfold reserveSlots
    rw [bind_run (update_run _ hlimits (by simpa using fits)), if_pos rfl,
      bind_run (update_run _ hqueue rfl), bind_run (require_run _ _ rfl)]
    exact ⟨_, rfl⟩
  have hyard := (reserveSlots_ok hreserve).1
  have hrow1 : (yardOf db1).jobs.get? entry.1 = some entry.2 := by
    rw [hyard]
    exact hrow
  have hattempts : db1.attempts = db.attempts := congrArg Yard.attempts hyard
  refine .bind ⟨true, db1, hreserve⟩ fun reserved between hrun => ?_
  rw [show reserveSlots (leaseCandidate entry).tenantID (leaseCandidate entry).queue
    (leaseCandidate entry).slotCost now db = .ok true db1 from hreserve] at hrun
  cases hrun
  refine .bind (.require rfl) fun _ _ hrequire => ?_
  rw [← (require_ok hrequire).2]
  refine .update_require hrow1 ?_ (.bind (succeeds_insertAttempt ?_ ?_) fun _ _ _ =>
    .bind (.mutate _) fun _ _ _ => .pure _)
  · simp [offered.pending entry hmem, offered.ready entry hmem, leaseCandidate]
  · exact congrArg (· + 1) hgeneration
  · intro number found hfound
    change db1.attempts.get? (entry.1, number) = some found at hfound
    rw [hattempts] at hfound
    obtain ⟨row, hget, _, hle, hnumber⟩ := offered.coherent.fences.attempt _ _ _ hfound
    rw [show (yardOf db).jobs.get? entry.1 = some entry.2 from hrow, Option.some.injEq] at hget
    subst hget
    exact ⟨Int.lt_add_one_of_le hle, hnumber⟩

theorem Offered.tail {lease : Lease} (offered : Offered db (entry :: granted))
    (h : scheduleCandidate sha256 request now token (leaseCandidate entry) db = .ok lease db') :
    Offered db' granted ∧ ∀ tenantID,
      db'.tenantLimits.get? tenantID = (db.tenantLimits.get? tenantID).map fun limits =>
        { limits with activeSlots := limits.activeSlots +
            if entry.2.tenantID = tenantID then entry.2.slotCost else 0 } := by
  have hmem : entry ∈ entry :: granted := List.mem_cons_self ..
  have hrow := offered.row entry hmem
  have hpending := offered.pending entry hmem
  obtain ⟨hvalid, happly, _⟩ :=
    scheduleCandidate_move (show anyPolicy.granting from trivial) (anyPolicy_allows _) ⟨entry.2, hrow, .refl _⟩ h
  refine ⟨⟨?_, offered.nodup.of_cons, ?_, ?_, ?_⟩, fun tenantID => ?_⟩
  · rw [← happly]
    exact offered.coherent.micro _ _ (.move _ hvalid)
  · intro other hother
    have hne := fst_ne_of_nodup offered.nodup hother
    have hkept : (yardOf db').jobs.get? other.1 = (yardOf db).jobs.get? other.1 := by
      rw [← happly]
      exact Move.get?_apply_ne _ hne
    exact hkept.trans (offered.row other (List.mem_cons_of_mem _ hother))
  · exact fun other hother => offered.pending other (List.mem_cons_of_mem _ hother)
  · exact fun other hother => offered.ready other (List.mem_cons_of_mem _ hother)
  · have htenants := congrArg Yard.tenants happly
    rw [Move.apply_of_alive _ rfl, leaseMove_delta hpending] at htenants
    change db.tenantLimits.modify entry.2.tenantID (fun limits =>
      { limits with activeSlots := limits.activeSlots + entry.2.slotCost }) =
      db'.tenantLimits at htenants
    rw [← htenants, Table.get?_modify]
    by_cases htenant : tenantID = entry.2.tenantID
    · rw [if_pos htenant, if_pos htenant.symm, htenant]
    · rw [if_neg htenant, if_neg (Ne.symm htenant)]
      simp

end Reserve

theorem tenantCost_nonneg (tenantID : String) (h : ∀ grant ∈ grants, 0 ≤ grant.slotCost) :
    0 ≤ tenantCost tenantID grants := by
  unfold tenantCost totalCost
  apply List.sum_nonneg
  intro cost hcost
  obtain ⟨grant, hgrant, rfl⟩ := List.mem_map.mp hcost
  exact h grant (List.mem_of_mem_filter hgrant)

theorem tenantCost_eq_zero (h : ∀ grant ∈ grants, grant.tenantID ≠ tenantID) :
    tenantCost tenantID grants = 0 := by
  have hnone : (grants.filter fun grant => grant.tenantID = tenantID) = [] := by
    simpa [List.filter_eq_nil_iff] using h
  rw [tenantCost, hnone, totalCost_nil]

theorem overdrawn_tail (hlimits : tenants.get? grant.tenantID = some limits)
    (fits : limits.maxSlots = 0 ∨ limits.activeSlots + grant.slotCost ≤ limits.maxSlots)
    (reserved : ∀ tenantID, tenants'.get? tenantID = (tenants.get? tenantID).map fun limits =>
      { limits with activeSlots := limits.activeSlots +
          if grant.tenantID = tenantID then grant.slotCost else 0 }) :
    Overdrawn tenants' grants ↔ Overdrawn tenants (grant :: grants) := by
  constructor
  · rintro ⟨other, hother, after, hafter, hcapped, hover⟩
    rw [reserved, Option.map_eq_some_iff] at hafter
    obtain ⟨before, hbefore, rfl⟩ := hafter
    refine ⟨other, List.mem_cons_of_mem _ hother, before, hbefore, hcapped, ?_⟩
    rw [tenantCost_cons]
    dsimp only at hover
    omega
  · rintro ⟨other, hother, before, hbefore, hcapped, hover⟩
    rw [tenantCost_cons] at hover
    obtain ⟨later, hlater, hsame⟩ : ∃ later ∈ grants, later.tenantID = other.tenantID := by
      by_contra hnone
      push Not at hnone
      rcases List.mem_cons.mp hother with rfl | hmem
      · rw [hlimits, Option.some.injEq] at hbefore
        subst hbefore
        rw [tenantCost_eq_zero hnone, if_pos rfl] at hover
        omega
      · exact hnone other hmem rfl
    have hafter := reserved other.tenantID
    rw [hbefore, Option.map_some] at hafter
    rw [← hsame] at hafter hover
    refine ⟨later, hlater, _, hafter, hcapped, ?_⟩
    dsimp only
    omega

theorem grantLeases_outcome (sha256 : Hash) (request : AcquireRequest) (now : Time)
    (plan : SchedulePlan) (tokens : Nat → Entropy) (index : Nat)
    {ranked granted : List (String × JobRow)}
    (candidates : plan.candidates = ranked.map leaseCandidate)
    (nodup : (ranked.map Prod.fst).Nodup) (subset : ∀ entry ∈ granted, entry ∈ ranked)
    (offered : Offered db granted) :
    (∃ leases db', grantLeases sha256 request now plan tokens index (granted.map grantOf) db =
        .ok leases db') ∧ ¬Overdrawn db.tenantLimits (granted.map grantOf) ∨
      (∃ id db', grantLeases sha256 request now plan tokens index (granted.map grantOf) db =
        .error (capacityChanged id) db') ∧ Overdrawn db.tenantLimits (granted.map grantOf) := by
  induction granted generalizing db index with
  | nil =>
    refine .inl ⟨⟨[], db, rfl⟩, ?_⟩
    rintro ⟨_, hmem, _⟩
    exact List.not_mem_nil hmem
  | cons entry granted ih =>
    rw [List.forall_mem_cons] at subset
    have hrow := offered.row entry (List.mem_cons_self ..)
    have haccounts := offered.coherent.accounts
    obtain ⟨limits, hlimits⟩ := Option.isSome_iff_exists.mp
      (haccounts.tenantExists entry.1 entry.2 hrow)
    have hlease : grantLease sha256 request now plan (tokens index) (grantOf entry) =
        scheduleCandidate sha256 request now (tokens index) (leaseCandidate entry) := by
      unfold grantLease
      rw [candidates, find_leaseCandidate nodup subset.1]
    rw [List.map_cons]
    by_cases hfits : limits.maxSlots = 0 ∨ limits.activeSlots + entry.2.slotCost ≤ limits.maxSlots
    · obtain ⟨lease, db1, hrun⟩ : Succeeds (scheduleCandidate sha256 request now (tokens index)
          (leaseCandidate entry)) db := succeeds_scheduleCandidate offered hlimits hfits
      obtain ⟨hoffered, htenants⟩ := offered.tail hrun
      have hdrawn : Overdrawn db1.tenantLimits (granted.map grantOf) ↔
          Overdrawn db.tenantLimits (grantOf entry :: granted.map grantOf) :=
        overdrawn_tail hlimits hfits htenants
      rw [← hdrawn]
      refine (ih (index + 1) subset.2 hoffered).imp ?_ ?_
      · rintro ⟨⟨leases, db', hrest⟩, hwithin⟩
        refine ⟨⟨lease :: leases, db', ?_⟩, hwithin⟩
        rw [grantLeases, hlease, bind_run hrun, bind_run hrest]
        rfl
      · rintro ⟨⟨id, db', hrest⟩, hover⟩
        refine ⟨⟨id, db', ?_⟩, hover⟩
        rw [grantLeases, hlease, bind_run hrun, bind_run_error hrest]
    · push Not at hfits
      refine .inr ⟨⟨entry.1, db, ?_⟩, grantOf entry, List.mem_cons_self .., limits, hlimits,
        hfits.1, ?_⟩
      · rw [grantLeases, hlease,
          bind_run_error (scheduleCandidate_refused hlimits hfits.1 hfits.2)]
      · have hrest : 0 ≤ tenantCost entry.2.tenantID (granted.map grantOf) := by
          apply tenantCost_nonneg
          intro grant hgrant
          obtain ⟨other, hother, rfl⟩ := List.mem_map.mp hgrant
          have hcost := haccounts.cost other.1 other.2
            (offered.row other (List.mem_cons_of_mem _ hother))
          exact hcost.le
        rw [tenantCost_cons]
        have hover := hfits.2
        change limits.maxSlots < limits.activeSlots + ((if entry.2.tenantID = entry.2.tenantID
          then entry.2.slotCost else 0) + tenantCost entry.2.tenantID (granted.map grantOf))
        rw [if_pos rfl]
        omega

def plannedGrants (sha256 : Hash) (request : AcquireRequest) (now : Time) (db : Database) :
    List Grant :=
  match buildSchedulePlan sha256 now request.availableSlots request.limit
      request.recoveryReserve db with
  | .ok (some plan) _ => plan.decision.grants
  | _ => []

theorem not_overdrawn_nil (tenants : Table String TenantRow) : ¬Overdrawn tenants [] := by
  rintro ⟨_, hmem, _⟩
  exact List.not_mem_nil hmem

/-- The ready jobs that a call has slots and turns for, by the queues, their deficits
and the cursor in the database. -/
def grantsInTurn (request : AcquireRequest) (now : Time) (db : Database) : List Grant :=
  let ranked := rankedJobs db now request.limit
  let queues := cloneAndSort (buildQueues db ranked)
  let cursor := (if db.schedulerCursor < 0 then 0 else db.schedulerCursor.toNat) % queues.length
  (taken queues.length (offeredSlots ranked request.availableSlots request.recoveryReserve)
    request.limit.toNat queues.length [] (turns queues cursor)).map Candidate.grant

theorem plannedGrants_eq (sha256 : Hash) (request : AcquireRequest) (now : Time)
    (coherent : Coherent (yardOf db)) :
    plannedGrants sha256 request now db = grantsInTurn request now db := by
  have hcosts : ∀ queue ∈ (snapshotOf sha256 request now db).queues,
      ∀ candidate ∈ queue.candidates, 1 ≤ candidate.slotCost := by
    intro queue hqueue candidate hcandidate
    have hwaiting : candidate.grant ∈ (rankedJobs db now request.limit).map grantOf := by
      refine (waiting_rankedJobs db now request.limit).subset (List.mem_flatMap.mpr ?_)
      exact ⟨queue, hqueue, List.mem_map_of_mem hcandidate⟩
    obtain ⟨entry, hentry, heq⟩ := List.mem_map.mp hwaiting
    have hrow := (db.jobs.mem_rows_iff entry.1 entry.2).mp (mem_rankedJobs hentry).1
    have hcost := coherent.accounts.cost entry.1 entry.2 hrow
    have hsame : entry.2.slotCost = candidate.slotCost := congrArg Grant.slotCost heq
    omega
  change _ = (snapshotOf sha256 request now db).inTurn.map Candidate.grant
  unfold plannedGrants
  rw [buildSchedulePlan_eq]
  split_ifs with hidle
  · rw [inTurn_of_stops (start_stops ?_) hcosts]
    · rfl
    rcases hidle with hnone | hslots
    · left
      change cloneAndSort (buildQueues db (rankedJobs db now request.limit)) = []
      rw [List.isEmpty_iff.mp hnone]
      rfl
    · exact .inr (.inl hslots)
  · cases hdecision : Scheduler.decide (snapshotOf sha256 request now db) with
    | ok decision => exact decide_inTurn hdecision hcosts
    | error error =>
      rw [inTurn_of_stops ?_ hcosts]
      · rfl
      by_contra hcontinues
      simp only [Bool.not_eq_false, Round.continues, Bool.and_eq_true, decide_eq_true_eq]
        at hcontinues
      obtain ⟨decision, hok⟩ : ∃ decision, Scheduler.decide (snapshotOf sha256 request now db) =
          .ok decision := decide_isOk
        hcontinues.1.2.le (le_trans (Int.natCast_nonneg _) hcontinues.1.1.le) (.inr rfl) hcosts
      rw [hdecision] at hok
      cases hok

theorem persistSchedulePlan_fails (plan : SchedulePlan) :
    FailsWith (fun error => ∀ id, error ≠ capacityChanged id)
      (persistSchedulePlan sha256 plan now) := by
  refine .bind (.forM fun _ _ => .bind (.update _ _ _ _) fun _ => .pure ()) fun _ =>
    .bind (.mutate _) fun _ => .bind (.query _) fun _ => .bind ?_ fun _ =>
      .bind (.query _) fun _ => .bind (.require fun _ => Error.noConfusion) fun _ =>
        .insert fun _ => Error.noConfusion
  intro state error state' h
  unfold newRecord at h
  split at h
  · cases h
    exact fun _ => Error.noConfusion
  · cases h

theorem offered_of_ranked {request : AcquireRequest} {granted : List (String × JobRow)}
    (coherent : Coherent (yardOf db)) (nodup : (granted.map Prod.fst).Nodup)
    (subset : ∀ entry ∈ granted, entry ∈ rankedJobs db now request.limit) :
    Offered { db with schedulerSeq := db.schedulerSeq + 1 } granted where
  coherent := coherent
  nodup := nodup
  row := fun entry hentry =>
    (db.jobs.mem_rows_iff entry.1 entry.2).mp (mem_rankedJobs (subset entry hentry)).1
  pending := fun entry hentry => (isReady_iff.mp (mem_rankedJobs (subset entry hentry)).2).1
  ready := fun entry hentry => (isReady_iff.mp (mem_rankedJobs (subset entry hentry)).2).2.1

theorem acquire_capacityChanged_iff (coherent : Coherent (yardOf db)) :
    (∃ id db', acquire sha256 request tokens now db = .error (capacityChanged id) db') ↔
      Overdrawn db.tenantLimits (plannedGrants sha256 request now db) := by
  unfold acquire plannedGrants
  have hplan := buildSchedulePlan_eq sha256 request now db
  split at hplan
  · rw [bind_run hplan, hplan]
    refine iff_of_false ?_ (not_overdrawn_nil _)
    rintro ⟨_, _, hrun⟩
    cases hrun
  · split at hplan
    · next decision hdecision =>
      rw [bind_run hplan, hplan]
      obtain ⟨granted, hgranted⟩ := granted_of_decide hdecision
      have houtcome := grantLeases_outcome sha256 request now
        (planFor sha256 request now db decision) tokens 0 rfl
        (nodup_rankedJobs db now request.limit) hgranted.ranked
        (offered_of_ranked coherent hgranted.nodup hgranted.ranked)
      rw [← hgranted.grants_eq] at houtcome
      rcases houtcome with ⟨⟨leases, db1, hrun⟩, hwithin⟩ | ⟨⟨id, db1, hrun⟩, hover⟩
      · refine iff_of_false ?_ hwithin
        rintro ⟨id, db', herror⟩
        have hpersist := (bind_run hrun).symm.trans herror
        exact FailsWith.bind (persistSchedulePlan_fails _) (fun _ => .pure leases) _ _ _ hpersist
          id rfl
      · exact iff_of_true ⟨id, db1, bind_run_error hrun⟩ hover
    · next error hdecision =>
      rw [bind_run_error hplan, hplan]
      refine iff_of_false ?_ (not_overdrawn_nil _)
      rintro ⟨id, db', hrun⟩
      cases hrun
      obtain ⟨message, hmessage⟩ := decide_error hdecision rfl
      cases hmessage

end RailYard.Refinement
