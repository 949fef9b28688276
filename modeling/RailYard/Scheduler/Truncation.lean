import RailYard.Scheduler.Canonical
import RailYard.Scheduler.Rounds

/-! A decision looks at no more candidates of a queue than it may grant. The loop on
queues that are cut off behind the batch limit runs in step with the loop on the
whole queues: a queue can only be used up by grants, and then the batch is full. -/
namespace RailYard.Scheduler

def Queue.cut (limit : Nat) (queue : Queue) : Queue :=
  { queue with candidates := queue.candidates.take limit }

@[simp] theorem Queue.cut_candidates (limit : Nat) (queue : Queue) :
    (queue.cut limit).candidates = queue.candidates.take limit := rfl

@[simp] theorem Queue.cut_deficit (limit : Nat) (queue : Queue) :
    (queue.cut limit).deficit = queue.deficit := rfl

@[simp] theorem Queue.cut_quantum (limit : Nat) (queue : Queue) :
    (queue.cut limit).quantum = queue.quantum := rfl

/-- Only the best candidates of every queue, as many as the batch has room for. -/
def Snapshot.truncated (input : Snapshot) : Snapshot :=
  { input with
    queues := input.queues.map fun queue =>
      { queue with candidates := (sortCandidates queue.candidates).take input.batchLimit.toNat } }

@[simp] theorem Snapshot.truncated_workerSlots (input : Snapshot) :
    input.truncated.workerSlots = input.workerSlots := rfl

@[simp] theorem Snapshot.truncated_batchLimit (input : Snapshot) :
    input.truncated.batchLimit = input.batchLimit := rfl

@[simp] theorem Snapshot.truncated_algorithm (input : Snapshot) :
    input.truncated.algorithm = input.algorithm := rfl

@[simp] theorem Snapshot.truncated_sequence (input : Snapshot) :
    input.truncated.sequence = input.sequence := rfl

theorem cloneAndSort_truncated (input : Snapshot) : cloneAndSort input.truncated.queues =
      (cloneAndSort input.queues).map (Queue.cut input.batchLimit.toNat) := by
  have hsorted : ∀ candidates, sortCandidates
      ((sortCandidates candidates).take input.batchLimit.toNat) =
        (sortCandidates candidates).take input.batchLimit.toNat := by
    intro candidates
    have hpairwise := ranks_candidateLess.pairwise_sort candidates
    exact (hpairwise.sublist (List.take_sublist _ _)).insertionSort_eq
  unfold cloneAndSort
  rw [List.map_insertionSort (fun a b => queueLess b a = false) (fun a b => queueLess b a = false)
    (Queue.cut input.batchLimit.toNat) _ fun _ _ _ _ => Iff.rfl]
  unfold Snapshot.truncated
  rw [List.map_map, List.map_map]
  congr 1
  refine List.map_congr_left fun queue _ => ?_
  simp only [Function.comp_apply, Queue.cut, hsorted]

section Serving

variable {batchLimit : Int}

theorem serve_take (candidates : List Candidate) (deficit remaining : Int) (grants : List Grant)
    (granted : Bool) (kept : Nat) (enough : batchLimit ≤ grants.length + kept) :
    (∃ error, serve batchLimit deficit remaining grants granted candidates = .error error ∧
        serve batchLimit deficit remaining grants granted (candidates.take kept) = .error error) ∨
      ∃ turn left, serve batchLimit deficit remaining grants granted candidates = .ok turn ∧
        serve batchLimit deficit remaining grants granted (candidates.take kept) =
          .ok { turn with candidates := turn.candidates.take left } ∧
        batchLimit ≤ turn.grants.length + left := by
  induction candidates generalizing deficit remaining grants granted kept with
  | nil =>
    rw [List.take_nil]
    exact .inr ⟨_, kept, rfl, by rw [serve, List.take_nil], enough⟩
  | cons candidate rest ih =>
    cases kept with
    | zero =>
      -- Nothing is kept only if the batch is full.
      have hfull : ¬(grants.length : Int) < batchLimit := by omega
      rw [serve, if_neg hfull, List.take_zero]
      exact .inr ⟨_, 0, rfl, rfl, enough⟩
    | succ kept =>
      rw [List.take_succ_cons, serve, serve]
      split_ifs with _ hcost hfits
      · exact .inl ⟨_, rfl, rfl⟩
      · exact .inr ⟨_, kept + 1, rfl, by rw [List.take_succ_cons], enough⟩
      · apply ih
        rw [List.length_append, List.length_singleton]
        push_cast at enough ⊢
        omega
      · exact .inr ⟨_, kept + 1, rfl, by rw [List.take_succ_cons], enough⟩

/-- Every queue keeps at least the candidates that the batch still has room for. -/
structure Clipped (batchLimit : Int) (round cut : Round) : Prop where
  length : cut.queues.length = round.queues.length
  queues : ∀ (place : Nat) (queue : Queue), round.queues[place]? = some queue →
    ∃ kept : Nat, batchLimit ≤ round.grants.length + kept ∧
      cut.queues[place]? = some (queue.cut kept)
  cursor : cut.cursor = round.cursor
  remaining : cut.remaining = round.remaining
  grants : cut.grants = round.grants
  visited : cut.visitedWithoutGrant = round.visitedWithoutGrant

theorem Clipped.continues {round : Round} (h : Clipped batchLimit round cut) :
    cut.continues batchLimit = round.continues batchLimit := by
  unfold Round.continues
  rw [h.grants, h.remaining, h.visited, h.length]

theorem Clipped.decision {round : Round} (h : Clipped batchLimit round cut) (sequence : Int) :
    buildDecision sequence cut.queues cut.cursor cut.grants =
      buildDecision sequence round.queues round.cursor round.grants := by
  have hstates : cut.queues.map (fun queue => QueueState.mk queue.tenantID queue.name queue.deficit) =
      round.queues.map fun queue => QueueState.mk queue.tenantID queue.name queue.deficit := by
    apply List.ext_getElem?
    intro place
    rw [List.getElem?_map, List.getElem?_map]
    cases hqueue : round.queues[place]? with
    | none =>
      rw [List.getElem?_eq_none_iff, ← h.length, ← List.getElem?_eq_none_iff] at hqueue
      rw [hqueue]
    | some queue =>
      obtain ⟨kept, _, hcut⟩ := h.queues place queue hqueue
      rw [hcut]
      rfl
  have hempty : cut.queues.isEmpty = round.queues.isEmpty := by
    rw [Bool.eq_iff_iff, List.isEmpty_iff_length_eq_zero, List.isEmpty_iff_length_eq_zero, h.length]
  unfold buildDecision
  rw [hstates, hempty, h.cursor, h.grants]

theorem cut_isEmpty {queue : Queue} (h : 0 < kept) :
    (queue.cut kept).candidates.isEmpty = queue.candidates.isEmpty := by
  obtain ⟨kept, rfl⟩ := Nat.exists_eq_succ_of_ne_zero h.ne'
  unfold Queue.cut
  cases queue.candidates <;> rfl

theorem Clipped.visit {round : Round} (h : Clipped batchLimit round cut)
    (continues : round.continues batchLimit = true) :
    (∃ error, visit batchLimit round = .error error ∧ visit batchLimit cut = .error error) ∨
      ∃ next cutNext, visit batchLimit round = .ok next ∧ visit batchLimit cut = .ok cutNext ∧
        Clipped batchLimit next cutNext := by
  have hroom : (round.grants.length : Int) < batchLimit := by
    simp only [Round.continues, Bool.and_eq_true, decide_eq_true_eq] at continues
    exact continues.1.1
  unfold Scheduler.visit
  rw [h.cursor, h.length]
  cases hqueue : round.queues[round.cursor]? with
  | none =>
    rw [List.getElem?_eq_none_iff, ← h.length, ← List.getElem?_eq_none_iff] at hqueue
    rw [hqueue]
    exact .inr ⟨_, _, rfl, rfl, h⟩
  | some queue =>
    obtain ⟨kept, hkept, hcut⟩ := h.queues round.cursor queue hqueue
    rw [hcut]
    dsimp only
    rw [cut_isEmpty (by omega)]
    split_ifs
    · exact .inr ⟨_, _, rfl, rfl, h.length, h.queues, rfl, h.remaining, h.grants, by rw [h.visited]⟩
    · rw [Queue.cut_quantum, Queue.cut_deficit, Queue.cut_candidates, h.remaining, h.grants,
        h.visited]
      rcases serve_take queue.candidates (queue.deficit + queue.quantum) round.remaining
        round.grants false kept hkept with ⟨error, hfull, hcut⟩ | ⟨turn, left, hfull, hcut, hleft⟩
      · exact .inl ⟨error, by rw [hfull], by rw [hcut]⟩
      · refine .inr ⟨_, _, by rw [hfull], by rw [hcut], ?_⟩
        refine ⟨by simp [h.length], fun place other hother => ?_, rfl, rfl, rfl, rfl⟩
        have hgrants : (round.grants.length : Int) ≤ turn.grants.length := by
          obtain ⟨served, hserved⟩ := serve_ok hfull
          rw [hserved.grants_eq, List.length_append]
          omega
        by_cases hplace : round.cursor = place
        · subst hplace
          have hinside := (List.getElem?_eq_some_iff.mp hqueue).1
          dsimp only at hother ⊢
          rw [List.getElem?_set_self hinside, Option.some.injEq] at hother
          rw [List.getElem?_set_self (by rw [h.length]; exact hinside), ← hother]
          exact ⟨left, hleft, rfl⟩
        · dsimp only at hother ⊢
          rw [List.getElem?_set_ne hplace] at hother ⊢
          obtain ⟨more, hmore, hfound⟩ := h.queues place other hother
          exact ⟨more, by omega, hfound⟩

theorem Clipped.rounds {round : Round} (h : Clipped batchLimit round cut) (fuel : Nat) :
    (∃ error, rounds batchLimit fuel round = .error error ∧
        rounds batchLimit fuel cut = .error error) ∨
      ∃ last cutLast, rounds batchLimit fuel round = .ok last ∧
        rounds batchLimit fuel cut = .ok cutLast ∧ Clipped batchLimit last cutLast := by
  induction fuel generalizing round cut with
  | zero => exact .inr ⟨_, _, rfl, rfl, h⟩
  | succ fuel ih =>
    rw [Scheduler.rounds, Scheduler.rounds, h.continues]
    split_ifs with hcontinues
    · rcases h.visit hcontinues with ⟨error, hfull, hcut⟩ | ⟨next, cutNext, hfull, hcut, hnext⟩
      · rw [hfull, hcut]
        exact .inl ⟨error, rfl, rfl⟩
      · rw [hfull, hcut]
        exact ih hnext
    · exact .inr ⟨_, _, rfl, rfl, h⟩

end Serving

theorem length_truncated (input : Snapshot) :
    (cloneAndSort input.truncated.queues).length = (cloneAndSort input.queues).length := by
  rw [cloneAndSort_truncated, List.length_map]

theorem clipped_start (input : Snapshot) :
    Clipped input.batchLimit input.start input.truncated.start where
  length := length_truncated input
  queues := by
    intro place queue hqueue
    refine ⟨input.batchLimit.toNat, by change _ ≤ (0 : Int) + _; omega, ?_⟩
    change (cloneAndSort input.truncated.queues)[place]? = _
    rw [cloneAndSort_truncated, List.getElem?_map]
    change (input.start.queues[place]?).map _ = _
    rw [hqueue]
    rfl
  cursor := by
    change (if input.cursor < 0 then 0 else input.cursor.toNat) % _ = _
    rw [length_truncated]
    rfl
  remaining := rfl
  grants := rfl
  visited := rfl

end RailYard.Scheduler
