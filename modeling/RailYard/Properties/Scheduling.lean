import RailYard.Scheduler.Machine
import RailYard.Scheduler.Rotation
import RailYard.Scheduler.Shares
import RailYard.Scheduler.Truncation

/-! One decision of the scheduler: what it grants and pays, when it stops, and what
it does not depend on. -/
namespace RailYard.Properties
open Library.RoundRobin Scheduler

def NamesDistinct (input : Snapshot) : Prop := (input.queues.map Queue.key).Nodup

structure RoundRobinStep (input : Snapshot) (decision : Decision) : Prop where
  limit : (decision.grants.length : Int) ≤ input.batchLimit
  slots : totalCost decision.grants ≤ input.workerSlots
  origin : ∀ grant ∈ decision.grants, ∃ queue ∈ input.queues,
    grant ∈ grantsFrom queue decision.grants
  order : ∀ queue ∈ input.queues, ∃ sorted : List Candidate, sorted.Perm queue.candidates ∧
    sorted.Pairwise (fun a b => a.rank < b.rank) ∧
    grantsFrom queue decision.grants <+: sorted.map Candidate.grant
  deficits : ∀ queue ∈ input.queues, ∃ deficit, decision.deficit? queue.key = some deficit ∧
    0 ≤ deficit ∧ (∃ quanta : Nat, deficit = queue.deficit + quanta * max queue.weight 1 -
      totalCost (grantsFrom queue decision.grants)) ∧
    (queue.candidates = [] → deficit = queue.deficit)
  cursor : (input.queues = [] ∧ decision.nextCursor = 0) ∨
    (0 ≤ decision.nextCursor ∧ decision.nextCursor < input.queues.length)
  terminates : ∃ turns last,
    (∀ fuel, turns ≤ fuel → Machine.rounds input.batchLimit fuel input.start = .ok last) ∧
      last.continues input.batchLimit = false

section Step

variable {input : Snapshot} {decision : Decision}

theorem length_start (input : Snapshot) : input.start.queues.length = input.queues.length := by
  change (cloneAndSort input.queues).length = _
  unfold cloneAndSort
  rw [List.length_insertionSort, List.length_map]

theorem batchLimit_nonneg (h : Scheduler.decide input = .ok decision) : 0 ≤ input.batchLimit := by
  rw [decide_eq] at h
  split_ifs at h with _ hlimit
  · exact Int.not_lt.mp hlimit
  · exact Int.not_lt.mp hlimit

theorem length_grants_le (h : Scheduler.decide input = .ok decision) :
    (decision.grants.length : Int) ≤ input.batchLimit := by
  rcases decide_cases h with ⟨_, rfl⟩ | ⟨last, ran⟩
  · exact batchLimit_nonneg h
  · rw [ran.decision_eq]
    exact rounds_rule (motive := fun _ round => (round.grants.length : Int) ≤ input.batchLimit)
      (fun _ _ _ _ _ _ _ visited hround => visited.room hround) ran.inside ran.limit.le ran.ran

theorem sorted_candidates {queue : Queue} (nodup : (queue.candidates.map Candidate.jobID).Nodup) :
    (sortCandidates queue.candidates).Pairwise fun a b => a.rank < b.rank := by
  have hperm := List.perm_insertionSort (fun a b => candidateLess b a = false) queue.candidates
  have hsorted := ranks_candidateLess.pairwise_sort queue.candidates
  have hnodup : (sortCandidates queue.candidates).Pairwise fun a b => a.jobID ≠ b.jobID :=
    List.pairwise_map.mp ((hperm.map Candidate.jobID).nodup_iff.mpr nodup)
  refine (hsorted.and hnodup).imp ?_
  rintro a b ⟨hle, hne⟩
  refine lt_of_le_of_ne ((ranks_candidateLess.le_iff a b).mp hle) fun heq => hne ?_
  unfold Candidate.rank at heq
  simp only [EmbeddingLike.apply_eq_iff_eq, Prod.mk.injEq] at heq
  exact heq.2.2.2

theorem nodup_keys (shares : Shares input.start.queues seen origins last)
    (names : NamesDistinct input) :
    (last.queues.map Queue.key).Nodup := by
  have hkeys : last.queues.map Queue.key = input.start.queues.map Queue.key := by
    apply List.ext_getElem?
    intro place
    rw [List.getElem?_map, List.getElem?_map]
    cases hqueue : input.start.queues[place]? with
    | none =>
      rw [List.getElem?_eq_none_iff, ← shares.length, ← List.getElem?_eq_none_iff] at hqueue
      rw [hqueue]
    | some queue =>
      obtain ⟨after, hafter, hshare⟩ := shares.share place queue hqueue
      rw [hafter, Option.map_some, Option.map_some, hshare.key]
  rw [hkeys, show input.start.queues.map Queue.key = ordered (input.queues.map Queue.key) from
    keys_cloneAndSort (.refl _), (ordered_perm _).nodup_iff]
  exact names

theorem buildDecision_cursor {sequence : Int} (h : cursor < queues.length) :
    (buildDecision sequence queues cursor grants).nextCursor = cursor := by
  have hempty : queues.isEmpty = false := by
    rw [List.isEmpty_eq_false_iff]
    rintro rfl
    exact Nat.not_lt_zero _ h
  unfold buildDecision
  rw [hempty, if_neg Bool.false_ne_true]

theorem loop_terminates (fits : Machine.Fits input) (h : Scheduler.decide input = .ok decision) :
    ∃ turns last,
      (∀ fuel, turns ≤ fuel → Machine.rounds input.batchLimit fuel input.start = .ok last) ∧
        last.continues input.batchLimit = false := by
  simp only [fun fuel => (Machine.rounds_start fits fuel).1]
  rcases decide_cases h with ⟨hidle, _⟩ | ⟨last, ran⟩
  · have hstops : input.start.continues input.batchLimit = false := start_stops hidle
    exact ⟨0, input.start, fun fuel hfuel => rounds_mono rfl hstops hfuel, hstops⟩
  · exact ⟨_, last, fun fuel hfuel => rounds_mono ran.ran ran.stops hfuel, ran.stops⟩

end Step

theorem exists_origin (h : Scheduler.decide input = .ok decision) (hgrant : grant ∈ decision.grants)
    :
    ∃ queue ∈ input.queues, grant ∈ grantsFrom queue decision.grants := by
  obtain ⟨rest, hperm⟩ := (decide_ok h).granted
  have hwaiting : grant ∈ waiting input.queues :=
    hperm.mem_iff.mp (List.mem_append_left rest hgrant)
  obtain ⟨queue, hqueue, hmem⟩ := List.mem_flatMap.mp hwaiting
  obtain ⟨candidate, hcandidate, rfl⟩ := List.mem_map.mp hmem
  refine ⟨queue, hqueue, List.mem_filter.mpr ⟨hgrant, ?_⟩⟩
  rw [decide_eq_true_eq]
  exact List.mem_map_of_mem hcandidate

theorem step_of_empty (fits : Machine.Fits input) (hempty : input.queues = [])
    (h : Scheduler.decide input = .ok decision) : RoundRobinStep input decision := by
  have hnone : cloneAndSort input.queues = [] := by
    rw [hempty]
    rfl
  have hlimit := length_grants_le h
  have hfits := (decide_ok h).fits
  have hloop := loop_terminates fits h
  rcases decide_cases h with ⟨_, rfl⟩ | ⟨_, ran⟩
  · rw [hnone] at hlimit hfits ⊢
    refine ⟨hlimit, hfits, ?_, ?_, ?_, .inl ⟨hempty, rfl⟩, hloop⟩
    · simp [buildDecision]
    · simp [hempty]
    · simp [hempty]
  · exact (ran.nonempty hnone).elim

/-- Every decision whose deficits stay in the 64-bit range is one step of deficit round
robin. -/
theorem decision_is_step (input : Snapshot) (decision : Decision) (names : NamesDistinct input)
    (jobs : JobsDistinct input.queues) (solvent : ∀ queue ∈ input.queues, 0 ≤ queue.deficit)
    (fits : Machine.Fits input) (h : Machine.decide input = .ok decision) :
    RoundRobinStep input decision := by
  rw [Machine.decide_eq fits] at h
  by_cases hempty : input.queues = []
  · exact step_of_empty fits hempty h
  obtain ⟨origins, last, cursor, hshares, hcursor, rfl⟩ := decide_shares h hempty
  have hnodup := nodup_keys hshares names
  have hsorted : JobsDistinct input.start.queues := jobsDistinct_cloneAndSort jobs
  -- What a queue of the snapshot and its place have to do with each other.
  have hqueue : ∀ queue ∈ input.queues, ∃ place after, last.queues[place]? = some after ∧
      Share { queue with candidates := sortCandidates queue.candidates } (servedAt origins place)
        (paidAt input.visits place) after ∧
      grantsFrom queue last.grants = (servedAt origins place).map Candidate.grant := by
    intro queue hmem
    obtain ⟨place, hplace⟩ := exists_place hmem
    obtain ⟨after, hafter, hshare⟩ := hshares.share place _ hplace
    refine ⟨place, after, hafter, hshare, ?_⟩
    rw [← grantsFrom_sorted]
    exact grantsFrom_eq hshares hsorted hplace
  refine ⟨length_grants_le h, ?_, ?_, ?_, ?_, ?_, loop_terminates fits h⟩
  · exact (decide_ok h).fits
  · exact fun grant hgrant => exists_origin h hgrant
  · intro queue hmem
    refine ⟨sortCandidates queue.candidates, List.perm_insertionSort _ _, ?_, ?_⟩
    · exact sorted_candidates ((List.nodup_flatMap.mp jobs).1 queue hmem)
    · exact grantsFrom_prefix h jobs hmem
  · intro queue hmem
    obtain ⟨place, after, hafter, hshare, hgrants⟩ := hqueue queue hmem
    have hcost : totalCost (grantsFrom queue last.grants) = cost (servedAt origins place) := by
      rw [hgrants]
      rfl
    have hkey : after.key = queue.key := hshare.key
    have hdeficit : after.deficit = queue.deficit + paidAt input.visits place * queue.quantum -
        cost (servedAt origins place) := hshare.deficit
    refine ⟨after.deficit, ?_, hshare.solvent (solvent queue hmem), ⟨paidAt input.visits place, ?_⟩,
      fun hnone => ?_⟩
    · rw [← hkey]
      exact deficit?_of_mem hnodup (List.mem_of_getElem? hafter)
    · change _ = _ - totalCost (grantsFrom queue last.grants)
      rw [hcost, Machine.max_weight, hdeficit]
    · have hsplit := hshare.split
      have hsort : sortCandidates queue.candidates = [] := by
        rw [hnone]
        rfl
      obtain ⟨hserved, _⟩ := List.nil_eq_append_iff.mp (hsort.symm.trans hsplit)
      rw [hdeficit, hshare.unpaid hsort, hserved]
      simp
  · right
    rw [buildDecision_cursor (by rw [hshares.length]; exact hcursor)]
    rw [length_start] at hcursor
    omega

def twoQueues : Snapshot where
  sequence := 1
  logicalTimeNS := 0
  workerSlots := 2
  batchLimit := 2
  cursor := 0
  queues := [⟨"a", "q", 1, 0, [⟨"1", "a", "q", 0, 1, 1, false⟩, ⟨"2", "a", "q", 0, 2, 3, false⟩]⟩,
    ⟨"b", "q", 2, 0, []⟩]
  configHash := ""
  algorithm := ""

theorem decision_is_step_two_queues : (Machine.decide twoQueues).toOption.map (fun decision =>
      (decision.grants.length, decision.nextCursor)) = some (1, 1) ∧
      ∀ decision, Machine.decide twoQueues = .ok decision → RoundRobinStep twoQueues decision :=
  ⟨by decide +kernel, fun decision h => decision_is_step twoQueues decision
    (by unfold NamesDistinct; decide) (by unfold JobsDistinct; decide) (by decide)
    (by unfold Machine.Fits; decide) h⟩

def fullDeficit : Snapshot :=
  { twoQueues with queues := [⟨"a", "q", 1, 2 ^ 63 - 1, [⟨"1", "a", "q", 0, 1, 1, false⟩]⟩] }

/-- The quantum wraps the deficit around, and the job is not granted. -/
theorem full_deficit_wraps : NamesDistinct fullDeficit ∧ JobsDistinct fullDeficit.queues ∧
    (∀ queue ∈ fullDeficit.queues, 0 ≤ queue.deficit) ∧
    ∃ decision, Machine.decide fullDeficit = .ok decision ∧
      ¬RoundRobinStep fullDeficit decision := by
  refine ⟨by unfold NamesDistinct; decide, by unfold JobsDistinct; decide, by decide,
    ⟨1, [], [⟨"a", "q", -2 ^ 63⟩], 0⟩, by decide +kernel, fun hstep => ?_⟩
  obtain ⟨deficit, hdeficit, hnonneg, _⟩ := hstep.deficits _ List.mem_cons_self
  obtain rfl : -2 ^ 63 = deficit := Option.some.inj hdeficit
  exact absurd hnonneg (by decide)

/-- No queue is left that the decision could serve. `origins` says from which place of
the canonical order each grant came. If nothing is granted at all, every queue with
candidates was visited once. -/
def ConservesWork (input : Snapshot) (decision : Decision) : Prop :=
  ∃ origins : List (Nat × Candidate),
    decision.grants = origins.map (fun entry => entry.2.grant) ∧
    ∀ (place : Nat) (queue : Queue), (canonicalSnapshot input).queues[place]? = some queue →
      ∃ left deficit, queue.candidates = servedAt origins place ++ left ∧
        decision.queues[place]? = some ⟨queue.tenantID, queue.name, deficit⟩ ∧
        (∀ head tail, left = head :: tail →
          deficit < head.slotCost ∨
            input.workerSlots - totalCost decision.grants < head.slotCost) ∧
        (decision.grants = [] → queue.candidates ≠ [] →
          ((Machine.visitsOf input).countP fun round => round.cursor = place) = 1 ∧
            deficit = queue.deficit + max queue.weight 1)

/-- A decision that leaves slots and room in the batch leaves no queue that it could
serve, if the deficits stay in the 64-bit range. -/
theorem decision_conserves_work (input : Snapshot) (decision : Decision)
    (fits : Machine.Fits input) (h : Machine.decide input = .ok decision)
    (room : (decision.grants.length : Int) < input.batchLimit)
    (slots : totalCost decision.grants < input.workerSlots) : ConservesWork input decision := by
  rw [Machine.decide_eq fits] at h
  have hvisits : Machine.visitsOf input = input.visits := (Machine.rounds_start fits _).2
  unfold ConservesWork
  rw [hvisits]
  rcases decide_cases h with ⟨hidle, rfl⟩ | ⟨last, ran⟩
  · refine ⟨[], rfl, fun place queue hqueue => ?_⟩
    change (0 : Int) < input.batchLimit at room
    change (0 : Int) < input.workerSlots at slots
    have hnone : cloneAndSort input.queues = [] := by
      rcases hidle with hnone | hslots | hlimit
      · exact hnone
      · omega
      · omega
    change (cloneAndSort input.queues)[place]? = some queue at hqueue
    rw [hnone, List.getElem?_nil] at hqueue
    cases hqueue
  · obtain ⟨origins, hshares⟩ := ran.shares
    have hremaining : last.remaining = input.workerSlots - totalCost last.grants :=
      ran.balanced.remaining
    rw [ran.decision_eq] at room slots ⊢
    change (last.grants.length : Int) < _ at room
    change totalCost last.grants < _ at slots
    refine ⟨origins, hshares.grants, fun place queue hqueue => ?_⟩
    obtain ⟨after, hafter, hshare⟩ := hshares.share place queue hqueue
    refine ⟨after.candidates, after.deficit, hshare.split, ?_, fun head tail hleft => ?_,
      fun hgrants waits => ?_⟩
    · change (last.queues.map _)[place]? = _
      have hkey := Prod.mk.inj hshare.key
      rw [List.getElem?_map, hafter, Option.map_some, hkey.1, hkey.2]
    · have hstuck := ran.stuck room (by omega) place after head tail hafter hleft
      rwa [hremaining] at hstuck
    · have hplace := (List.getElem?_eq_some_iff.mp hqueue).1
      refine ⟨ran.visits_once hgrants (by omega) hplace, ?_⟩
      have hserved : origins = [] := List.map_eq_nil_iff.mp (hshares.grants.symm.trans hgrants)
      rw [hshare.deficit, ran.paid_once hgrants (by omega) hqueue waits, hserved, Machine.max_weight]
      simp

theorem decision_conserves_work_two_queues : (Machine.decide twoQueues).toOption.isSome = true ∧
      ∀ decision, Machine.decide twoQueues = .ok decision → ConservesWork twoQueues decision := by
  refine ⟨by decide +kernel, fun decision h => ?_⟩
  have hshape : (Machine.decide twoQueues).toOption.map (fun decision =>
      (decision.grants.length, totalCost decision.grants)) = some (1, 1) := by decide +kernel
  rw [h] at hshape
  obtain ⟨hlength, hcost⟩ := Prod.mk.inj (Option.some.inj hshape)
  have hlimit : twoQueues.batchLimit = 2 := rfl
  have hslots : twoQueues.workerSlots = 2 := rfl
  exact decision_conserves_work twoQueues decision (by unfold Machine.Fits; decide) h
    (by rw [hlimit]; omega) (by rw [hslots]; omega)

/-- The deficit does not grow by a quantum, although nothing is granted. -/
theorem full_deficit_shrinks : ∃ decision, Machine.decide fullDeficit = .ok decision ∧
    (decision.grants.length : Int) < fullDeficit.batchLimit ∧
    totalCost decision.grants < fullDeficit.workerSlots ∧ ¬ConservesWork fullDeficit decision := by
  refine ⟨⟨1, [], [⟨"a", "q", -2 ^ 63⟩], 0⟩, by decide +kernel, by decide, by decide, ?_⟩
  rintro ⟨_, _, hqueues⟩
  obtain ⟨_, deficit, _, hstate, _, hgrown⟩ := hqueues 0 _ rfl
  obtain rfl : -2 ^ 63 = deficit := congrArg QueueState.deficit (Option.some.inj hstate)
  exact absurd (hgrown rfl (List.cons_ne_nil _ _)).2 (by decide)

structure Reordered (queue other : Queue) : Prop where
  tenantID : other.tenantID = queue.tenantID
  name : other.name = queue.name
  weight : other.weight = queue.weight
  deficit : other.deficit = queue.deficit
  candidates : other.candidates.Perm queue.candidates

/-- The same queues in another order, each with its candidates in another order. -/
def Rearranged (queues others : List Queue) : Prop :=
  ∃ middle, List.Forall₂ Reordered queues middle ∧ middle.Perm others

theorem Reordered.sorted (h : Reordered queue other)
    (nodup : (queue.candidates.map Candidate.jobID).Nodup) :
    { other with candidates := sortCandidates other.candidates } =
      { queue with candidates := sortCandidates queue.candidates } := by
  have hsort : sortCandidates queue.candidates = sortCandidates other.candidates := by
    refine ranks_candidateLess.sort_perm h.candidates.symm fun a ha b hb hrank => ?_
    refine List.inj_on_of_nodup_map nodup ha hb ?_
    unfold Candidate.rank at hrank
    simp only [EmbeddingLike.apply_eq_iff_eq, Prod.mk.injEq] at hrank
    exact hrank.2.2.2
  rw [← hsort, Queue.mk.injEq]
  exact ⟨h.tenantID, h.name, h.weight, h.deficit, rfl⟩

theorem cloneAndSort_rearranged (h : Rearranged queues others)
    (names : (queues.map Queue.key).Nodup) (jobs : JobsDistinct queues) :
    cloneAndSort others = cloneAndSort queues := by
  obtain ⟨middle, hreordered, hperm⟩ := h
  have hids : ∀ queue ∈ queues, (queue.candidates.map Candidate.jobID).Nodup :=
    (List.nodup_flatMap.mp jobs).1
  have hsame : middle.map Queue.key = queues.map Queue.key ∧
      (middle.map fun queue => { queue with candidates := sortCandidates queue.candidates }) =
        queues.map fun queue => { queue with candidates := sortCandidates queue.candidates } := by
    clear names jobs hperm
    induction hreordered with
    | nil => exact ⟨rfl, rfl⟩
    | cons hhead _ ih =>
      rw [List.forall_mem_cons] at hids
      obtain ⟨hkeys, hclone⟩ := ih hids.2
      have hkey := congrArg₂ Prod.mk hhead.tenantID hhead.name
      simp only [List.map_cons]
      exact ⟨congrArg₂ List.cons hkey hkeys, congrArg₂ List.cons (hhead.sorted hids.1) hclone⟩
  have hnodup : (middle.map Queue.key).Nodup := by rwa [hsame.1]
  rw [← cloneAndSort_perm hperm hnodup]
  unfold cloneAndSort
  rw [hsame.2]

/-- Whatever order the queues and their candidates come in, the decision and the
canonical form are the same, and the canonical form is its own canonical form. -/
theorem decision_ignores_order (input : Snapshot) (others : List Queue)
    (names : NamesDistinct input) (jobs : JobsDistinct input.queues)
    (h : Rearranged input.queues others) :
    let other : Snapshot := { input with queues := others }
    Scheduler.decide other = Scheduler.decide input ∧
      Scheduler.decide (canonicalSnapshot other) = Scheduler.decide input ∧
      canonicalSnapshot other = canonicalSnapshot input ∧
      canonicalSnapshot (canonicalSnapshot other) = canonicalSnapshot other := by
  intro other
  have hcanonical : canonicalSnapshot other = canonicalSnapshot input := by
    unfold canonicalSnapshot
    rw [show cloneAndSort other.queues = cloneAndSort input.queues from
      cloneAndSort_rearranged h names jobs]
  have hdecide : Scheduler.decide (canonicalSnapshot other) = Scheduler.decide input := by
    rw [hcanonical, decide_canonicalSnapshot]
  refine ⟨?_, hdecide, hcanonical, canonicalSnapshot_canonicalSnapshot other⟩
  rw [← decide_canonicalSnapshot other, hdecide]

theorem decision_ignores_order_reversed :
    Scheduler.decide { twoQueues with queues := twoQueues.queues.reverse } =
      Scheduler.decide twoQueues :=
  (decision_ignores_order twoQueues twoQueues.queues.reverse (by unfold NamesDistinct; decide)
    (by unfold JobsDistinct; decide)
    ⟨twoQueues.queues, List.forall₂_same.mpr fun _ _ => ⟨rfl, rfl, rfl, rfl, .refl _⟩,
      (List.reverse_perm _).symm⟩).1

/-- The store offers of every queue only as many jobs as it may grant, and loses
nothing by it. -/
theorem truncation_loses_nothing (input : Snapshot) :
    Scheduler.decide input.truncated = Scheduler.decide input := by
  have hempty : (cloneAndSort input.truncated.queues).isEmpty =
      (cloneAndSort input.queues).isEmpty := by
    rw [cloneAndSort_truncated, List.isEmpty_map]
  have hidle : buildDecision input.sequence (cloneAndSort input.truncated.queues) 0 [] =
      buildDecision input.sequence (cloneAndSort input.queues) 0 [] := by
    unfold buildDecision
    rw [hempty, cloneAndSort_truncated, List.map_map]
    rfl
  have hbound : turnBound input.batchLimit (cloneAndSort input.truncated.queues) =
      turnBound input.batchLimit (cloneAndSort input.queues) := by
    unfold turnBound
    rw [length_truncated]
  rw [decide_eq, decide_eq]
  simp only [Snapshot.truncated_workerSlots, Snapshot.truncated_batchLimit,
    Snapshot.truncated_algorithm, Snapshot.truncated_sequence, hempty, hbound, hidle]
  rcases (clipped_start input).rounds (turnBound input.batchLimit (cloneAndSort input.queues)) with
    ⟨error, hfull, hcut⟩ | ⟨last, cutLast, hfull, hcut, hlast⟩
  · rw [hfull, hcut]
  · rw [hfull, hcut]
    dsimp only
    rw [hlast.decision]

end RailYard.Properties
