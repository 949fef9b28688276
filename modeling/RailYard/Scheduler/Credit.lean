import RailYard.Scheduler.Sequences

/-! How much credit a queue can save up. A visit that serves the queue costs it
at least what it was paid, and a queue whose head it cannot afford has less
than that head costs; so credit grows beyond the largest cost only on visits
that pass the queue over for want of slots. -/
namespace RailYard.Scheduler

/-- Equal weights, and jobs that cost something and at most `largest`. -/
structure Regular (largest : Int) (input : Snapshot) : Prop where
  weights : ∀ queue ∈ input.queues, queue.weight = 1
  costs : ∀ queue ∈ input.queues, ∀ candidate ∈ queue.candidates,
    1 ≤ candidate.slotCost ∧ candidate.slotCost ≤ largest

theorem Regular.carried (h : Regular largest input) (carried : Carried) :
    Regular largest (carried.snapshot input) :=
  ⟨List.forall_mem_map.mpr h.weights, List.forall_mem_map.mpr h.costs⟩

structure Saved (largest : Int) (queue : Queue) (passes : Nat) : Prop where
  weight : queue.weight = 1
  costs : ∀ candidate ∈ queue.candidates,
    1 ≤ candidate.slotCost ∧ candidate.slotCost ≤ largest
  nonneg : 0 ≤ queue.deficit
  le : queue.deficit ≤ largest + passes

theorem Saved.mono {passes : Nat} (h : Saved largest queue passes) (hle : passes ≤ passes') :
    Saved largest queue passes' :=
  { h with le := h.le.trans (by omega) }

theorem Queue.credit_le {queue : Queue} (h : queue.weight = 1) :
    queue.deficit ≤ queue.credit ∧ queue.credit ≤ queue.deficit + 1 := by
  unfold Queue.credit Queue.quantum
  rw [h]
  split
  · simp
  · simp

theorem Saved.after {round : Round} {queue : Queue} {passes : Nat}
    (visited : Visited batchLimit round queue served left next)
    (continues : round.continues batchLimit = true) (h : Saved largest queue passes) :
    Saved largest (queue.after served left)
      (passes + if round.short = some queue.key then 1 else 0) := by
  obtain ⟨hlow, hhigh⟩ := Queue.credit_le h.weight
  have hpaid := visited.solvent (h.nonneg.trans hlow)
  have hle := h.le
  refine ⟨h.weight, fun candidate hcandidate => h.costs candidate ?_, ?_, ?_⟩
  · rw [visited.split]
    exact List.mem_append_right served hcandidate
  · exact Int.sub_nonneg_of_le hpaid
  · change queue.credit - cost served ≤ _
    cases served with
    | nil =>
      rw [cost_nil]
      rcases visited.idle continues with hempty | ⟨head, tail, hhead, hcredit | hshort⟩
      · have hunpaid : queue.credit = queue.deficit := by
          unfold Queue.credit
          rw [hempty]
          exact add_zero _
        omega
      · have hcost := (h.costs head (by rw [hhead]; exact List.mem_cons_self ..)).2
        omega
      · rw [if_pos hshort]
        omega
    | cons candidate rest =>
      have hcost := length_le_cost visited.positive
      rw [List.length_cons] at hcost
      omega

section Decision

variable {before : String × String → Nat} (regular : Regular largest input)
  (start : ∀ queue ∈ input.queues,
    0 ≤ queue.deficit ∧ queue.deficit ≤ largest + before queue.key)
include regular start

theorem saved_start : ∀ queue ∈ input.start.queues, Saved largest queue (before queue.key) := by
  intro queue hqueue
  obtain ⟨original, horiginal, rfl⟩ := mem_cloneAndSort.mp hqueue
  obtain ⟨hnonneg, hle⟩ := start original horiginal
  refine ⟨regular.weights original horiginal, fun candidate hcandidate => ?_, hnonneg, hle⟩
  exact regular.costs original horiginal candidate (mem_sortCandidates.mp hcandidate)

theorem saved_of_ran (ran : Ran input decision last) :
    (∀ round ∈ input.visits, ∀ queue ∈ round.queues,
      Saved largest queue (before queue.key + input.passes queue.key)) ∧
    ∀ queue ∈ last.queues, Saved largest queue (before queue.key + input.passes queue.key) := by
  have hlast := rounds_rule (motive := fun seen round =>
      (∀ visit ∈ seen, ∀ queue ∈ visit.queues, Saved largest queue
        (before queue.key + seen.countP fun round => round.short = some queue.key)) ∧
      ∀ queue ∈ round.queues, Saved largest queue
        (before queue.key + seen.countP fun round => round.short = some queue.key))
    (fun seen round queue served left next continues visited hround => by
      simp only [List.countP_append, List.countP_singleton]
      refine ⟨?_, fun other hother => ?_⟩
      · rw [List.forall_mem_append, List.forall_mem_singleton]
        exact ⟨fun visit hvisit other hother => (hround.1 visit hvisit other hother).mono (by omega),
          fun other hother => (hround.2 other hother).mono (by omega)⟩
      rcases visited.mem hother with rfl | hother
      · have hsaved :=
          (hround.2 queue (List.mem_of_getElem? visited.found)).after visited continues
        rw [Nat.add_assoc] at hsaved
        rw [show (queue.after served left).key = queue.key from rfl]
        simpa only [decide_eq_true_eq] using hsaved
      · exact (hround.2 other hother).mono (by omega))
    ran.inside ⟨fun _ hvisit => (List.not_mem_nil hvisit).elim, saved_start regular start⟩ ran.ran
  exact hlast

theorem deficit_le_of_decide (h : decide input = .ok decision)
    (hdeficit : decision.deficit? key = some deficit) :
    0 ≤ deficit ∧ deficit ≤ largest + (before key + input.passes key : Nat) := by
  rcases decide_cases h with ⟨_, rfl⟩ | ⟨last, ran⟩
  · obtain ⟨queue, hqueue, rfl, rfl⟩ := deficit?_buildDecision hdeficit
    have hsaved := saved_start regular start queue hqueue
    exact ⟨hsaved.nonneg, hsaved.le.trans (by omega)⟩
  · rw [ran.decision_eq] at hdeficit
    obtain ⟨queue, hqueue, rfl, rfl⟩ := deficit?_buildDecision hdeficit
    have hsaved := (saved_of_ran regular start ran).2 queue hqueue
    exact ⟨hsaved.nonneg, hsaved.le⟩

variable (before) in
theorem visit_takes (h : decide input = .ok decision) {round next : Round} {queue : Queue}
    (hvisit : round ∈ input.visits) (hqueue : round.queues[round.cursor]? = some queue)
    (hnext : visit input.batchLimit round = .ok next) :
    round.remaining - next.remaining ≤
      largest + (before queue.key + input.passes queue.key : Nat) + 1 := by
  obtain ⟨last, ran⟩ : ∃ last, Ran input decision last := by
    refine (decide_cases h).resolve_left fun hidle => ?_
    rw [visits_of_idle hidle.1] at hvisit
    exact List.not_mem_nil hvisit
  have hsaved := (saved_of_ran regular start ran).1 round hvisit queue
    (List.mem_of_getElem? hqueue)
  obtain ⟨found, served, left, visited⟩ :=
    visit_ok (List.getElem?_eq_some_iff.mp hqueue).1 hnext
  obtain rfl : queue = found := by
    have hfound := visited.found
    rw [hqueue, Option.some.injEq] at hfound
    exact hfound
  obtain ⟨hlow, hhigh⟩ := Queue.credit_le hsaved.weight
  have hpaid := visited.solvent (hsaved.nonneg.trans hlow)
  have hremaining := visited.remaining
  have hle := hsaved.le
  omega

end Decision

theorem deficits_le (before : String × String → Nat)
    (regular : ∀ input ∈ inputs, Regular largest input)
    (start : ∀ key, 0 ≤ carried.deficits key ∧ carried.deficits key ≤ largest + before key)
    (h : decideAll carried inputs = .ok (decisions, last)) (key : String × String) :
    0 ≤ last.deficits key ∧
      last.deficits key ≤ largest + (before key + passes key carried inputs : Nat) := by
  induction inputs generalizing carried decisions before with
  | nil =>
    cases h
    exact start key
  | cons input rest ih =>
    rw [List.forall_mem_cons] at regular
    obtain ⟨decision, others, hdecision, hrest, rfl⟩ := decideAll_cons_ok h
    have hafter : ∀ key, 0 ≤ (carried.after decision).deficits key ∧
        (carried.after decision).deficits key ≤
          largest + (before key + (carried.snapshot input).passes key : Nat) := by
      intro key
      change 0 ≤ (decision.deficit? key).getD _ ∧ (decision.deficit? key).getD _ ≤ _
      cases hdeficit : decision.deficit? key with
      | none =>
        have hkept := start key
        rw [Option.getD_none]
        exact ⟨hkept.1, hkept.2.trans (by omega)⟩
      | some deficit =>
        refine deficit_le_of_decide (regular.1.carried carried) ?_ hdecision hdeficit
        exact List.forall_mem_map.mpr fun queue _ => start queue.key
    have hlast := ih (fun key => before key + (carried.snapshot input).passes key)
      regular.2 hafter hrest
    rw [passes_cons key hdecision, ← Nat.add_assoc]
    exact hlast

end RailYard.Scheduler
