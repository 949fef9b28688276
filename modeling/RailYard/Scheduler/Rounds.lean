import RailYard.Scheduler.Visits

/-! What the scheduler's loop does to the jobs it is offered: a granted job
leaves its queue, its cost comes out of the worker's slots, and the loop ends
of its own accord. -/
namespace RailYard.Scheduler

def waiting (queues : List Queue) : List Grant :=
  queues.flatMap fun queue => queue.candidates.map Candidate.grant

section Loop

variable {slots batchLimit : Int} {round next : Round}

structure Balanced (queues : List Queue) (slots : Int) (round : Round) : Prop where
  names : round.queues.map Queue.key = queues.map Queue.key
  perm : (round.grants ++ waiting round.queues).Perm (waiting queues)
  remaining : round.remaining = slots - totalCost round.grants
  nonneg : 0 ≤ round.remaining
  positive : ∀ grant ∈ round.grants, 1 ≤ grant.slotCost

theorem balanced_initial (nonneg : 0 ≤ slots) :
    Balanced queues slots ⟨queues, cursor, slots, [], 0⟩ where
  names := rfl
  perm := .refl _
  remaining := by simp
  nonneg := nonneg
  positive := by simp

theorem waiting_set {index : Nat} {after : Queue} (h : queues[index]? = some queue)
    (split : queue.candidates = served ++ after.candidates) :
    (served.map Candidate.grant ++ waiting (queues.set index after)).Perm (waiting queues) := by
  obtain ⟨hindex, rfl⟩ := List.getElem?_eq_some_iff.mp h
  have hbefore : queues = queues.take index ++ queues[index] :: queues.drop (index + 1) := by
    rw [← List.drop_eq_getElem_cons hindex, List.take_append_drop]
  rw [List.set_eq_take_append_cons_drop, if_pos hindex]
  conv_rhs => rw [hbefore]
  simp only [waiting, List.flatMap_append, List.flatMap_cons, split, List.map_append,
    List.append_assoc]
  exact List.perm_append_comm_assoc _ _ _

theorem Balanced.visit (balanced : Balanced queues slots round)
    (visited : Visited batchLimit round queue served left next) :
    Balanced queues slots next := by
  refine ⟨visited.keys.trans balanced.names, ?_, ?_, visited.nonneg balanced.nonneg, ?_⟩
  · rw [visited.grants, visited.queues, List.append_assoc]
    exact ((waiting_set visited.found visited.split).append_left _).trans balanced.perm
  · rw [visited.remaining, visited.grants, totalCost_append, balanced.remaining, Int.sub_sub]
    rfl
  · rw [visited.grants, List.forall_mem_append, List.forall_mem_map]
    exact ⟨balanced.positive, visited.positive⟩

/-- Turns that are left at most: a whole idle pass for every grant to come. -/
def Round.turnsLeft (batchLimit : Int) (round : Round) : Nat :=
  (batchLimit.toNat - round.grants.length) * (round.queues.length + 1) +
    (round.queues.length - round.visitedWithoutGrant)

theorem Visited.turnsLeft_lt (visited : Visited batchLimit round queue served left next)
    (continues : round.continues batchLimit = true) :
    next.turnsLeft batchLimit < round.turnsLeft batchLimit := by
  simp only [Round.continues, Bool.and_eq_true, decide_eq_true_eq] at continues
  obtain ⟨⟨hgrants, _⟩, hvisited⟩ := continues
  unfold Round.turnsLeft
  rw [visited.length, visited.visited, visited.grants, List.length_append, List.length_map]
  cases served with
  | nil =>
    simp only [List.isEmpty_nil, if_true, List.length_nil, Nat.add_zero]
    omega
  | cons candidate served =>
    obtain ⟨more, hmore⟩ : ∃ more, batchLimit.toNat - round.grants.length = more + 1 :=
      ⟨batchLimit.toNat - round.grants.length - 1, by omega⟩
    have hle : batchLimit.toNat - (round.grants.length + (candidate :: served).length) ≤ more := by
      rw [List.length_cons]
      omega
    have hmul := Nat.mul_le_mul_right (round.queues.length + 1) hle
    rw [hmore, Nat.succ_mul, List.isEmpty_cons, if_neg Bool.false_ne_true]
    omega

theorem rounds_stop (inside : round.cursor < round.queues.length)
    (enough : round.turnsLeft batchLimit ≤ fuel) (h : rounds batchLimit fuel round = .ok next) :
    next.continues batchLimit = false := by
  induction fuel generalizing round with
  | zero =>
    obtain rfl := Except.ok.inj h
    unfold Round.turnsLeft at enough
    simp only [Round.continues, Bool.and_eq_false_iff, decide_eq_false_iff_not]
    omega
  | succ fuel ih =>
    rcases rounds_succ h with ⟨hstop, rfl⟩ | ⟨hcontinues, turn, hvisit, hrest⟩
    · exact hstop
    · obtain ⟨_, _, _, visited⟩ := visit_ok inside hvisit
      have hless := visited.turnsLeft_lt hcontinues
      exact ih visited.inside (by omega) hrest

theorem rounds_mono (h : rounds batchLimit fuel round = .ok next)
    (stops : next.continues batchLimit = false) (hle : fuel ≤ more) :
    rounds batchLimit more round = .ok next := by
  induction fuel generalizing round more with
  | zero =>
    obtain rfl := Except.ok.inj h
    cases more with
    | zero => rfl
    | succ more => rw [rounds, stops, if_neg Bool.false_ne_true]
  | succ fuel ih =>
    obtain ⟨more, rfl⟩ := Nat.exists_eq_add_of_le' (Nat.one_le_of_lt hle)
    rw [rounds]
    rcases rounds_succ h with ⟨hstop, rfl⟩ | ⟨hcontinues, turn, hvisit, hrest⟩
    · rw [hstop, if_neg Bool.false_ne_true]
    · rw [if_pos hcontinues, hvisit]
      exact ih hrest (Nat.le_of_succ_le_succ hle)

end Loop

section Decisions

theorem Ran.balanced (ran : Ran input decision last) :
    Balanced (cloneAndSort input.queues) input.workerSlots last :=
  rounds_rule (motive := fun _ => Balanced (cloneAndSort input.queues) input.workerSlots)
    (fun _ _ _ _ _ _ _ visited hround => hround.visit visited) ran.inside
    (balanced_initial ran.slots.le) ran.ran

theorem Ran.stops (ran : Ran input decision last) : last.continues input.batchLimit = false := by
  refine rounds_stop ran.inside ?_ ran.ran
  simp only [Round.turnsLeft, turnBound, Snapshot.start, List.length_nil, Nat.succ_mul, Nat.sub_zero]
  omega

theorem waiting_cloneAndSort (queues : List Queue) :
    (waiting (cloneAndSort queues)).Perm (waiting queues) := by
  unfold waiting cloneAndSort
  refine ((List.perm_insertionSort _ _).flatMap_right _).trans ?_
  rw [List.flatMap_map]
  exact List.Perm.flatMap_left _ fun queue _ => (List.perm_insertionSort _ _).map _

/-- What a decision grants was waiting in the snapshot, each job once, and fits
into the worker's slots. -/
structure Decided (input : Snapshot) (decision : Decision) : Prop where
  sequence : decision.sequence = input.sequence
  names : decision.queues.map (fun queue => (queue.tenantID, queue.queue)) =
    (cloneAndSort input.queues).map fun queue => (queue.tenantID, queue.name)
  granted : ∃ rest, (decision.grants ++ rest).Perm (waiting input.queues)
  fits : totalCost decision.grants ≤ input.workerSlots
  positive : ∀ grant ∈ decision.grants, 1 ≤ grant.slotCost

theorem decided_of_balanced {round : Round}
    (balanced : Balanced (cloneAndSort input.queues) input.workerSlots round) :
    Decided input (buildDecision input.sequence round.queues round.cursor round.grants) where
  sequence := rfl
  names := by
    rw [← balanced.names]
    simp [buildDecision]
  granted := ⟨_, balanced.perm.trans (waiting_cloneAndSort _)⟩
  fits := by
    have hremaining := balanced.remaining
    have hnonneg := balanced.nonneg
    change totalCost round.grants ≤ _
    omega
  positive := balanced.positive

theorem decide_ok (h : decide input = .ok decision) : Decided input decision := by
  rcases decide_cases h with ⟨_, rfl⟩ | ⟨last, ran⟩
  · refine decided_of_balanced (balanced_initial ?_)
    by_contra hslots
    rw [decide_eq, if_pos (Int.not_le.mp hslots)] at h
    cases h
  · rw [ran.decision_eq]
    exact decided_of_balanced ran.balanced

end Decisions

theorem rounds_error {round : Round} (h : rounds batchLimit fuel round = .error error) :
    ∃ message, error = .text message := by
  induction fuel generalizing round with
  | zero => cases h
  | succ fuel ih =>
    rw [rounds] at h
    split at h
    · split at h
      · exact ih h
      · next hvisit =>
        cases h
        unfold visit at hvisit
        split at hvisit
        · cases hvisit
        · dsimp only at hvisit
          split_ifs at hvisit
          split at hvisit
          · next hserve =>
            cases hvisit
            exact serve_error hserve
          · cases hvisit
    · cases h

theorem decide_error (h : decide input = .error error) (known : input.algorithm = algorithmVersion)
    : ∃ message, error = .text message := by
  unfold decide at h
  dsimp only at h
  split at h
  · exact ⟨_, (Except.error.inj h).symm⟩
  · split at h
    · exact ⟨_, (Except.error.inj h).symm⟩
    · rw [if_neg fun hunknown => hunknown.2 known] at h
      split at h
      · cases h
      · split at h
        · cases h
        · next hrounds =>
          cases h
          exact rounds_error hrounds

end RailYard.Scheduler
