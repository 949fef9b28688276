import RailYard.Properties.StartTimes
import RailYard.Properties.Reserve
import RailYard.Scheduler.Shares

/-! Whether jobs are served in the order of their queue. The scheduler serves what it
is offered in order; the snapshot it is offered leaves out the jobs that their
tenant's cap has no room for, and a smaller job behind such a job goes first. -/
namespace RailYard.Properties
open Library Domain Store
open Scheduler Lifecycle Refinement

variable {db : Database} {now : Time} {key : String × String}

def servedBefore (a b : String × JobRow) : Bool :=
  candidateLess (schedulerCandidate a) (schedulerCandidate b)

def entryRank (entry : String × JobRow) : Bool ×ₗ ℤ ×ₗ ℤ ×ₗ String :=
  (schedulerCandidate entry).rank

theorem ranks_servedBefore : Ranks servedBefore entryRank :=
  fun a b => ranks_candidateLess (schedulerCandidate a) (schedulerCandidate b)

def waits (now : Time) (entry : String × JobRow) : Bool :=
  entry.2.state = .pending && 0 < entry.2.readySeq && entry.2.availableAt ≤ timeToDB now

def line (db : Database) (key : String × String) (test : String × JobRow → Bool) :
    List (String × JobRow) :=
  ((db.jobs.rows.filter fun entry => queueKey entry = key).filter test).insertionSort
    fun a b => servedBefore b a = false

def waitingLine (db : Database) (now : Time) (key : String × String) : List String :=
  (line db key (waits now)).map Prod.fst

/-- The jobs of the queue among those that a call has granted a lease for. -/
def grantedOf (db : Database) (key : String × String) (leases : List Lease) : List String :=
  (leases.map Lease.jobID).filter fun id => (db.jobs.get? id).any fun row =>
    queueKey (id, row) = key

def FitsCap (db : Database) (id : String) : Prop :=
  ∀ row, db.jobs.get? id = some row → TenantHasRoom db row

theorem entryRank_unique (ha : a ∈ db.jobs.rows) (hb : b ∈ db.jobs.rows)
    (h : entryRank a = entryRank b) : a = b := by
  have hid : a.1 = b.1 := by
    unfold entryRank Candidate.rank at h
    simp only [EmbeddingLike.apply_eq_iff_eq, Prod.mk.injEq] at h
    exact h.2.2.2
  exact List.inj_on_of_nodup_map db.jobs.nodupKeys ha hb hid

theorem filter_line (db : Database) (key : String × String) (test more : String × JobRow → Bool) :
    (line db key test).filter more = line db key fun entry => test entry && more entry := by
  unfold line
  rw [ranks_servedBefore.filter_sort, List.filter_filter]
  · congr 1
    apply List.filter_congr
    intro entry _
    exact Bool.and_comm _ _
  · intro a ha b hb
    exact entryRank_unique (List.mem_of_mem_filter (List.mem_of_mem_filter ha))
      (List.mem_of_mem_filter (List.mem_of_mem_filter hb))

theorem mem_line {entry : String × JobRow} : entry ∈ line db key test ↔
      (entry ∈ db.jobs.rows ∧ queueKey entry = key) ∧ test entry = true := by
  unfold line
  rw [List.mem_insertionSort, List.mem_filter, List.mem_filter, decide_eq_true_eq]

def withinLimit (db : Database) (now : Time) (limit : Int) (entry : String × JobRow) : Bool :=
  ((predecessors (db.jobs.rows.filter (isReady db now)) entry).length : Int) < limit

theorem withinLimit_closed (db : Database) (now : Time) (limit : Int) (key : String × String)
    (test : String × JobRow → Bool) : (line db key test).Pairwise fun a b =>
      withinLimit db now limit b = true → withinLimit db now limit a = true := by
  refine (List.Pairwise.and_mem.mp (ranks_servedBefore.pairwise_sort _)).imp ?_
  rintro a b ⟨ha, hb, hle⟩ hwithin
  have hkeys : queueKey a = queueKey b := (mem_line.mp ha).1.2.trans (mem_line.mp hb).1.2.symm
  have hsub : List.Sublist (predecessors (db.jobs.rows.filter (isReady db now)) a)
      (predecessors (db.jobs.rows.filter (isReady db now)) b) := by
    apply List.monotone_filter_right
    intro other hother
    simp only [Bool.and_eq_true, decide_eq_true_eq] at hother ⊢
    refine ⟨hother.1.trans hkeys, ?_⟩
    have hless := (ranks_servedBefore other a).mp hother.2
    exact (ranks_servedBefore other b).mpr
      (lt_of_lt_of_le hless ((ranks_servedBefore.le_iff a b).mp hle))
  unfold withinLimit at hwithin ⊢
  rw [decide_eq_true_eq] at hwithin ⊢
  have hlength := hsub.length_le
  omega

theorem offered_prefix (db : Database) (now : Time) (limit : Int) (key : String × String) :
    ∃ offered, offered <+: line db key (isReady db now) ∧
      sortCandidates (((rankedJobs db now limit).filter fun entry => queueKey entry = key).map
        schedulerCandidate) = offered.map schedulerCandidate := by
  have hperm : ((rankedJobs db now limit).filter fun entry => queueKey entry = key).Perm
      ((db.jobs.rows.filter fun entry => queueKey entry = key).filter fun entry =>
        isReady db now entry && withinLimit db now limit entry) := by
    unfold rankedJobs
    refine ((List.perm_insertionSort _ _).filter _).trans ?_
    rw [List.filter_filter, List.filter_filter, List.filter_filter]
    refine List.Perm.of_eq (List.filter_congr fun entry _ => ?_)
    unfold withinLimit
    cases isReady db now entry <;> cases decide (queueKey entry = key) <;> simp
  have hsorted : ((rankedJobs db now limit).filter fun entry =>
      queueKey entry = key).insertionSort (fun a b => servedBefore b a = false) =
        (line db key (isReady db now)).filter (withinLimit db now limit) := by
    rw [filter_line]
    refine ranks_servedBefore.sort_perm hperm fun a ha b hb => ?_
    exact entryRank_unique (mem_rankedJobs (List.mem_of_mem_filter ha)).1
      (mem_rankedJobs (List.mem_of_mem_filter hb)).1
  refine ⟨_, filter_isPrefix (withinLimit_closed db now limit key (isReady db now)), ?_⟩
  rw [← hsorted, List.map_insertionSort (fun a b => servedBefore b a = false)
    (fun a b => candidateLess b a = false) schedulerCandidate _ fun _ _ _ _ => Iff.rfl]
  rfl

theorem jobsDistinct_snapshotOf (sha256 : Hash) (request : AcquireRequest) (now : Time)
    (db : Database) : JobsDistinct (snapshotOf sha256 request now db).queues := by
  have hids : ((waiting (buildQueues db (rankedJobs db now request.limit))).map Grant.jobID).Perm
      ((rankedJobs db now request.limit).map Prod.fst) := by
    refine ((waiting_rankedJobs db now request.limit).map Grant.jobID).trans ?_
    rw [List.map_map]
    exact .refl _
  have hnodup := hids.nodup_iff.mpr (nodup_rankedJobs db now request.limit)
  unfold waiting at hnodup
  rw [List.map_flatMap] at hnodup
  unfold JobsDistinct
  simp only [List.map_map] at hnodup
  exact hnodup

theorem granted_prefix (h : Scheduler.decide (snapshotOf sha256 request now db) = .ok decision)
    (hgranted : GrantedFrom (rankedJobs db now request.limit) decision.grants granted)
    (key : String × String) :
    (granted.filter fun entry => queueKey entry = key).map Prod.fst <+:
      (line db key (isReady db now)).map Prod.fst := by
  cases hmine : granted.filter fun entry => queueKey entry = key with
  | nil => exact List.nil_prefix
  | cons first others =>
    have hfirst : first ∈ granted.filter fun entry => queueKey entry = key := by
      rw [hmine]
      exact List.mem_cons_self ..
    rw [List.mem_filter, decide_eq_true_eq] at hfirst
    have hranked := hgranted.ranked first hfirst.1
    obtain ⟨row, hrow⟩ := Option.isSome_iff_exists.mp
      (isReady_iff.mp (mem_rankedJobs hranked).2).2.2.2.2
    rw [hfirst.2] at hrow
    let queue : Queue := ⟨key.1, key.2, row.weight, row.deficit,
      ((rankedJobs db now request.limit).filter fun entry => queueKey entry = key).map
        schedulerCandidate⟩
    have hqueue : queue ∈ (snapshotOf sha256 request now db).queues := by
      refine List.mem_filterMap.mpr ⟨key, ?_, ?_⟩
      · rw [List.mem_dedup, ← hfirst.2]
        exact List.mem_map_of_mem hranked
      · rw [hrow]
        rfl
    have hprefix := grantsFrom_prefix h (jobsDistinct_snapshotOf sha256 request now db) hqueue
    have hmap : grantsFrom queue decision.grants =
        (granted.filter fun entry => queueKey entry = key).map grantOf := by
      unfold grantsFrom
      rw [hgranted.grants_eq, List.filter_map]
      congr 1
      apply List.filter_congr
      intro entry hentry
      simp only [Function.comp_apply, decide_eq_decide]
      rw [List.map_map, List.mem_map]
      constructor
      · rintro ⟨other, hother, hid⟩
        rw [List.mem_filter, decide_eq_true_eq] at hother
        rw [← List.inj_on_of_nodup_map (nodup_rankedJobs db now request.limit) hother.1
          (hgranted.ranked entry hentry) hid]
        exact hother.2
      · intro hkey
        refine ⟨entry, List.mem_filter.mpr ⟨hgranted.ranked entry hentry, ?_⟩, rfl⟩
        rw [decide_eq_true_eq]
        exact hkey
    obtain ⟨offered, hoffered, hsort⟩ := offered_prefix db now request.limit key
    have hline := hprefix.map Grant.jobID
    rw [hmap] at hline
    change _ <+: ((sortCandidates (((rankedJobs db now request.limit).filter fun entry =>
      queueKey entry = key).map schedulerCandidate)).map Candidate.grant).map Grant.jobID at hline
    rw [hsort, List.map_map, List.map_map, List.map_map] at hline
    rw [← hmine]
    exact hline.trans (hoffered.map Prod.fst)

def letThrough (db : Database) (now : Time) (id : String) : Bool :=
  (db.jobs.get? id).any fun row => isReady db now (id, row)

theorem filter_waitingLine (db : Database) (now : Time) (key : String × String) :
    (waitingLine db now key).filter (letThrough db now) =
      (line db key (isReady db now)).map Prod.fst := by
  have hrows : (line db key (waits now)).filter (letThrough db now ∘ Prod.fst) =
      (line db key (waits now)).filter (isReady db now) := by
    apply List.filter_congr
    intro entry hentry
    have hrow := (db.jobs.mem_rows_iff entry.1 entry.2).mp (mem_line.mp hentry).1.1
    unfold letThrough
    rw [Function.comp_apply, hrow]
    rfl
  unfold waitingLine
  rw [List.filter_map, hrows, filter_line]
  congr 2
  funext entry
  cases hready : isReady db now entry with
  | false => exact Bool.and_false _
  | true =>
    obtain ⟨hpending, hseq, havailable, _⟩ := isReady_iff.mp hready
    simp [waits, hpending, hseq, havailable]

theorem letThrough_iff (accounts : Accounts (yardOf db)) {id : String}
    (h : id ∈ waitingLine db now key) : letThrough db now id = true ↔ FitsCap db id := by
  obtain ⟨⟨other, row⟩, hentry, rfl⟩ := List.mem_map.mp h
  obtain ⟨⟨hmem, _⟩, hwaits⟩ := mem_line.mp hentry
  have hrow := (db.jobs.mem_rows_iff other row).mp hmem
  simp only [waits, Bool.and_eq_true, decide_eq_true_eq] at hwaits
  obtain ⟨found, hfound, _, _, _, hroom⟩ :=
    selectable_of_ready accounts hrow hwaits.1.1 hwaits.1.2 hwaits.2
  obtain rfl : found = row := Option.some.inj (hfound.symm.trans hrow)
  unfold letThrough FitsCap
  dsimp only
  rw [hrow, Option.any_some, hroom]
  constructor
  · rintro hhas _ ⟨⟩
    exact hhas
  · intro hall
    exact hall found rfl

theorem nodup_waitingLine (db : Database) (now : Time) (key : String × String) :
    (waitingLine db now key).Nodup := by
  unfold waitingLine line
  rw [((List.perm_insertionSort _ _).map Prod.fst).nodup_iff, List.filter_filter]
  exact db.jobs.nodupKeys_filter _

theorem leased_prefix (h : Leased request now db leases granted)
    (planned : plannedGrants sha256 request now db = granted.map grantOf) (key : String × String) :
    (granted.filter fun entry => queueKey entry = key).map Prod.fst <+:
      (line db key (isReady db now)).map Prod.fst := by
  have hnone : [] = granted.map grantOf → (granted.filter fun entry =>
      queueKey entry = key).map Prod.fst <+: (line db key (isReady db now)).map Prod.fst := by
    intro hnil
    rw [List.map_eq_nil_iff.mp hnil.symm]
    exact List.nil_prefix
  unfold plannedGrants at planned
  rw [buildSchedulePlan_eq] at planned
  split_ifs at planned
  · exact hnone planned
  · cases hdecision : Scheduler.decide (snapshotOf sha256 request now db) with
    | ok decision =>
      rw [hdecision] at planned
      exact granted_prefix hdecision ⟨planned, h.ranked, h.nodup⟩ key
    | error error =>
      rw [hdecision] at planned
      exact hnone planned

theorem grantedOf_eq {granted : List (String × JobRow)} (h : Leased request now db leases granted)
    (key : String × String) : grantedOf db key leases =
      (granted.filter fun entry => queueKey entry = key).map Prod.fst := by
  have hids : leases.map Lease.jobID = granted.map Prod.fst := by
    have hfirst := congrArg (List.map Prod.fst) h.leases_eq
    rwa [List.map_map, List.map_map] at hfirst
  unfold grantedOf
  rw [hids, List.filter_map]
  congr 1
  apply List.filter_congr
  intro entry hentry
  have hrow := (db.jobs.mem_rows_iff entry.1 entry.2).mp (mem_rankedJobs (h.ranked entry hentry)).1
  rw [Function.comp_apply, hrow]
  rfl

/-- The jobs that a successful call grants from a queue are the first of all that wait
in it if and only if the cap of their tenant has room for every job that stands before
one that has its turn. -/
theorem heads_not_bypassed_iff (env : Env) (options : Options) (activities : List Activity)
    (request : AcquireRequest) (tokens : Nat → Entropy) (now : Time) (leases : List Lease)
    (db' : Database) (key : String × String)
    (succeeds : acquire env.sha256 request tokens now (run env (freshStore options) activities).db =
      .ok leases db') :
    let db := (run env (freshStore options) activities).db
    let waiting := waitingLine db now key
    grantedOf db key leases <+: waiting ↔ ∀ earlier id later, waiting = earlier ++ id :: later →
      id ∈ (grantsInTurn request now db).map Grant.jobID → ∀ other ∈ earlier, FitsCap db other := by
  intro db waiting
  have hsound := sound_run env options activities
  obtain ⟨granted, hleased, hplanned⟩ := acquire_leased succeeds
  have hprefix : grantedOf db key leases <+: (waitingLine db now key).filter (letThrough db now) := by
    rw [grantedOf_eq hleased, filter_waitingLine]
    exact leased_prefix hleased hplanned key
  have hmem : ∀ id ∈ waiting, (id ∈ grantedOf db key leases ↔
      id ∈ (grantsInTurn request now db).map Grant.jobID) := by
    intro id hid
    obtain ⟨entry, hentry, rfl⟩ := List.mem_map.mp hid
    have hkey := (mem_line.mp hentry).1.2
    have hrows := (mem_line.mp hentry).1.1
    rw [← plannedGrants_eq env.sha256 request now hsound.toCoherent, hplanned, grantedOf_eq hleased,
      List.map_map, List.mem_map, List.mem_map]
    constructor
    · rintro ⟨other, hother, hsame⟩
      exact ⟨other, List.mem_of_mem_filter hother, hsame⟩
    · rintro ⟨other, hother, hsame⟩
      have heq := List.inj_on_of_nodup_map db.jobs.nodupKeys
        (mem_rankedJobs (hleased.ranked other hother)).1 hrows hsame
      subst heq
      exact ⟨other, List.mem_filter.mpr ⟨hother, by simpa using hkey⟩, rfl⟩
  rw [prefix_iff_of_filter (nodup_waitingLine _ _ _) hprefix]
  have hinside : ∀ earlier id later, waiting = earlier ++ id :: later →
      id ∈ waiting ∧ ∀ other ∈ earlier, other ∈ waiting := by
    intro earlier id later hsplit
    rw [hsplit]
    exact ⟨by simp, fun other hother => List.mem_append_left _ hother⟩
  refine forall₄_congr fun earlier id later hsplit => ?_
  obtain ⟨hid, hearlier⟩ := hinside earlier id later hsplit
  rw [hmem id hid]
  refine forall₃_congr fun _ other hother => ?_
  exact letThrough_iff hsound.accounts (hearlier other hother)

def twoSlotOptions : Options :=
  { defaultOptions with defaultTenantSlots := 2, slotsNonnegative := by decide }

def costlyJob (byte : UInt8) (slotCost : Int) : Activity :=
  .call ⟨.submitJob {
    job := { payload := { type := .noop }, slotCost := slotCost }
    actor := "api"
    idempotencyKey := newID (entropyOf byte)
    requestDigest := "digest" } (entropyOf byte), ⟨1, 0⟩⟩

def acquireUpTo (limit : Int) : Op :=
  .acquire { workerID := "worker", availableSlots := 4, limit := limit, leaseTTL := 10 }
    (fun index => entropyOf index.toUInt8)

/-- Only the first of three waiting jobs has its turn in a call for one job. -/
theorem heads_not_bypassed_first :
    let db := (run lengthEnv (freshStore twoSlotOptions)
      [costlyJob 1 1, costlyJob 2 2, costlyJob 3 1]).db
    ∃ leases db', acquire lengthEnv.sha256 { lastSlot with recoveryReserve := 0 }
        (fun index => entropyOf index.toUInt8) 2 db = .ok leases db' ∧
      grantedOf db ("default", "default") leases <+: waitingLine db 2 ("default", "default") := by
  intro db
  obtain ⟨leases, db', hacquire⟩ := succeeds_of_commit (acquire
    lengthEnv.sha256 { lastSlot with recoveryReserve := 0 }
    (fun index => entropyOf index.toUInt8) 2) db (by decide +kernel)
  have hwaiting : waitingLine db 2 ("default", "default") =
    [newID (entropyOf 1), newID (entropyOf 2), newID (entropyOf 3)] := by decide +kernel
  have hturn : (grantsInTurn { lastSlot with recoveryReserve := 0 } 2 db).map Grant.jobID =
    [newID (entropyOf 1)] := by decide +kernel
  refine ⟨leases, db', hacquire, (heads_not_bypassed_iff _ _ _ _ _ _ _ _ _ hacquire).mpr ?_⟩
  intro earlier id later hsplit hid other hother
  obtain rfl := List.mem_singleton.mp (hturn ▸ hid)
  cases earlier with
  | nil => cases hother
  | cons first earlier =>
    have htail := (List.cons.inj (hwaiting.symm.trans hsplit)).2
    have hagain : newID (entropyOf 1) ∈ [newID (entropyOf 2), newID (entropyOf 3)] := by
      rw [htail]
      simp
    exact absurd hagain (by decide +kernel)

/-- One of two slots is taken; the head of the queue needs both, and the job behind it
is leased. -/
theorem head_bypassed :
    let store := run lengthEnv (freshStore twoSlotOptions)
      [costlyJob 1 1, costlyJob 2 2, costlyJob 3 1, .call ⟨acquireUpTo 1, ⟨1, 0⟩⟩]
    let key := ("default", "default")
    waitingLine store.db (store.clock.writeTime ⟨2, 0⟩) key =
        [newID (entropyOf 2), newID (entropyOf 3)] ∧
      grantedOf store.db key (leasesGranted lengthEnv store ⟨acquireUpTo 2, ⟨2, 0⟩⟩) =
        [newID (entropyOf 3)] := by
  decide +kernel

end RailYard.Properties
