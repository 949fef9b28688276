import RailYard.Scheduler.Decide
import Mathlib.Algebra.Order.BigOperators.Group.List
import Mathlib.Algebra.Order.Ring.Int

/-! The visits of a decision one by one: what the queue under the cursor is
paid, what it is served and why its turn ends. -/
namespace RailYard.Scheduler

abbrev Queue.key (queue : Queue) : String × String := (queue.tenantID, queue.name)

abbrev Grant.key (grant : Grant) : String × String := (grant.tenantID, grant.queue)

def totalCost (grants : List Grant) : Int := (grants.map Grant.slotCost).sum

@[simp] theorem totalCost_nil : totalCost [] = 0 := rfl

@[simp] theorem totalCost_cons (grant : Grant) (grants : List Grant) :
    totalCost (grant :: grants) = grant.slotCost + totalCost grants := rfl

@[simp] theorem totalCost_append (left right : List Grant) :
    totalCost (left ++ right) = totalCost left + totalCost right := by
  simp [totalCost]

def cost (served : List Candidate) : Int := totalCost (served.map Candidate.grant)

@[simp] theorem cost_nil : cost [] = 0 := rfl

@[simp] theorem cost_cons (candidate : Candidate) (served : List Candidate) :
    cost (candidate :: served) = candidate.slotCost + cost served := rfl

theorem length_le_cost (positive : ∀ candidate ∈ served, 1 ≤ candidate.slotCost) :
    (served.length : Int) ≤ cost served := by
  induction served with
  | nil => exact Int.le_refl 0
  | cons candidate served ih =>
    rw [List.forall_mem_cons] at positive
    have hrest := ih positive.2
    rw [cost_cons, List.length_cons]
    omega

section Serving

variable {batchLimit deficit remaining : Int} {grants : List Grant} {granted : Bool}
  {candidates : List Candidate} {turn : Turn}

/-- One turn serves a first part of the queue. It ends with the queue, with the
batch, or at a head that is too large for the credit or for the slots that are
left. -/
structure Serving (batchLimit deficit remaining : Int) (grants : List Grant) (granted : Bool)
    (candidates served : List Candidate) (turn : Turn) : Prop where
  split : candidates = served ++ turn.candidates
  grants_eq : turn.grants = grants ++ served.map Candidate.grant
  remaining_eq : turn.remaining = remaining - cost served
  deficit_eq : turn.deficit = deficit - cost served
  nonneg : 0 ≤ remaining → 0 ≤ turn.remaining
  affordable : served = [] ∨ 0 ≤ turn.deficit
  positive : ∀ candidate ∈ served, 1 ≤ candidate.slotCost
  granted_eq : turn.granted = (granted || !served.isEmpty)
  room : (grants.length : Int) ≤ batchLimit → (turn.grants.length : Int) ≤ batchLimit
  stopped : turn.candidates = [] ∨ batchLimit ≤ turn.grants.length ∨
    ∃ head tail, turn.candidates = head :: tail ∧
      (turn.deficit < head.slotCost ∨ turn.remaining < head.slotCost)

theorem serving_nil (stopped : candidates = [] ∨ batchLimit ≤ grants.length ∨
      ∃ head tail, candidates = head :: tail ∧
        (deficit < head.slotCost ∨ remaining < head.slotCost)) :
    Serving batchLimit deficit remaining grants granted candidates []
      ⟨candidates, deficit, remaining, grants, granted⟩ := by
  refine ⟨rfl, ?_, ?_, ?_, id, .inl rfl, ?_, ?_, id, stopped⟩
  all_goals simp

theorem serve_ok (h : serve batchLimit deficit remaining grants granted candidates = .ok turn) :
    ∃ served, Serving batchLimit deficit remaining grants granted candidates served turn := by
  induction candidates generalizing deficit remaining grants granted with
  | nil =>
    obtain rfl := Except.ok.inj h
    exact ⟨[], serving_nil (.inl rfl)⟩
  | cons candidate rest ih =>
    rw [serve] at h
    split_ifs at h with hbatch hcost hfits
    · obtain rfl := Except.ok.inj h
      exact ⟨[], serving_nil (.inr (.inr ⟨candidate, rest, rfl, hfits⟩))⟩
    · push Not at hfits
      obtain ⟨served, hserved⟩ := ih h
      refine ⟨candidate :: served, ?_, ?_, ?_, ?_, ?_, ?_, ?_, ?_, ?_, hserved.stopped⟩
      · rw [hserved.split, List.cons_append]
      · rw [hserved.grants_eq, List.append_assoc, List.map_cons, List.singleton_append]
      · rw [hserved.remaining_eq, cost_cons, Int.sub_sub]
      · rw [hserved.deficit_eq, cost_cons, Int.sub_sub]
      · exact fun _ => hserved.nonneg (by omega)
      · right
        have hleft := hserved.deficit_eq
        rcases hserved.affordable with rfl | hpaid
        · rw [cost_nil] at hleft
          omega
        · exact hpaid
      · rw [List.forall_mem_cons]
        exact ⟨by omega, hserved.positive⟩
      · rw [hserved.granted_eq]
        simp
      · refine fun _ => hserved.room ?_
        rw [List.length_append, List.length_singleton]
        push_cast
        omega
    · obtain rfl := Except.ok.inj h
      exact ⟨[], serving_nil (.inr (.inl (Int.not_lt.mp hbatch)))⟩

theorem serve_isOk (batchLimit deficit remaining : Int) (grants : List Grant) (granted : Bool)
    (positive : ∀ candidate ∈ candidates, 1 ≤ candidate.slotCost) :
    ∃ turn, serve batchLimit deficit remaining grants granted candidates = .ok turn := by
  induction candidates generalizing deficit remaining grants granted with
  | nil => exact ⟨_, rfl⟩
  | cons candidate rest ih =>
    rw [List.forall_mem_cons] at positive
    rw [serve]
    split_ifs with _ hcost hfits
    · omega
    · exact ⟨_, rfl⟩
    · exact ih _ _ _ _ positive.2
    · exact ⟨_, rfl⟩

theorem serve_error
    (h : serve batchLimit deficit remaining grants granted candidates = .error error) :
    ∃ message, error = .text message := by
  induction candidates generalizing deficit remaining grants granted with
  | nil => cases h
  | cons candidate rest ih =>
    rw [serve] at h
    split_ifs at h
    · cases h
      exact ⟨_, rfl⟩
    · exact ih h

end Serving

def Queue.credit (queue : Queue) : Int :=
  queue.deficit + if queue.candidates.isEmpty then 0 else queue.quantum

def Queue.after (queue : Queue) (served left : List Candidate) : Queue :=
  { queue with candidates := left, deficit := queue.credit - cost served }

theorem map_set_of_eq {α β : Type} {f : α → β} {items : List α} {index : Nat} {item next : α}
    (h : items[index]? = some item) (same : f next = f item) :
    (items.set index next).map f = items.map f := by
  obtain ⟨hindex, rfl⟩ := List.getElem?_eq_some_iff.mp h
  have hget : (items.map f)[index]? = some (f next) := by
    rw [List.getElem?_map, h, same, Option.map_some]
  obtain ⟨hlength, hget⟩ := List.getElem?_eq_some_iff.mp hget
  rw [List.map_set, ← hget, List.set_getElem_self]

structure Visited (batchLimit : Int) (round : Round) (queue : Queue)
    (served left : List Candidate) (next : Round) : Prop where
  found : round.queues[round.cursor]? = some queue
  split : queue.candidates = served ++ left
  queues : next.queues = round.queues.set round.cursor (queue.after served left)
  cursor : next.cursor = (round.cursor + 1) % round.queues.length
  remaining : next.remaining = round.remaining - cost served
  grants : next.grants = round.grants ++ served.map Candidate.grant
  visited : next.visitedWithoutGrant =
    if served.isEmpty then round.visitedWithoutGrant + 1 else 0
  positive : ∀ candidate ∈ served, 1 ≤ candidate.slotCost
  nonneg : 0 ≤ round.remaining → 0 ≤ next.remaining
  affordable : served = [] ∨ cost served ≤ queue.credit
  room : (round.grants.length : Int) ≤ batchLimit → (next.grants.length : Int) ≤ batchLimit
  stopped : left = [] ∨ batchLimit ≤ next.grants.length ∨ ∃ head tail, left = head :: tail ∧
    (queue.credit - cost served < head.slotCost ∨ next.remaining < head.slotCost)

section Visit

variable {batchLimit : Int} {round next : Round} {queue : Queue} {served left : List Candidate}

theorem visit_ok (inside : round.cursor < round.queues.length)
    (h : visit batchLimit round = .ok next) :
    ∃ queue served left, Visited batchLimit round queue served left next := by
  obtain ⟨queue, hqueue⟩ : ∃ queue, round.queues[round.cursor]? = some queue :=
    ⟨_, List.getElem?_eq_getElem inside⟩
  unfold visit at h
  rw [hqueue] at h
  dsimp only at h
  split_ifs at h with hempty
  · obtain rfl := Except.ok.inj h
    have hnone := List.isEmpty_iff.mp hempty
    have hsame : queue.after [] [] = queue := by
      unfold Queue.after Queue.credit
      rw [hempty, if_pos rfl, cost_nil, add_zero, sub_zero, ← hnone]
    refine ⟨queue, [], [], hqueue, hnone, ?_, rfl, by simp, by simp, rfl, by simp, id, .inl rfl, id,
      .inl rfl⟩
    obtain ⟨_, hget⟩ := List.getElem?_eq_some_iff.mp hqueue
    dsimp only
    rw [hsame, ← hget, List.set_getElem_self]
  · have hcredit : queue.credit = queue.deficit + queue.quantum := by
      unfold Queue.credit
      rw [if_neg hempty]
    rw [← hcredit] at h
    split at h
    · cases h
    · rename_i turn hserve
      obtain rfl := Except.ok.inj h
      obtain ⟨served, hserved⟩ := serve_ok hserve
      refine ⟨queue, served, turn.candidates, hqueue, hserved.split, ?_, rfl, hserved.remaining_eq,
        hserved.grants_eq, ?_, hserved.positive, hserved.nonneg, ?_, hserved.room, ?_⟩
      · unfold Queue.after
        rw [hserved.deficit_eq]
      · dsimp only
        rw [hserved.granted_eq]
        cases served <;> rfl
      · exact hserved.affordable.imp_right fun hpaid =>
          Int.sub_nonneg.mp (hserved.deficit_eq ▸ hpaid)
      · rw [← hserved.deficit_eq]
        exact hserved.stopped

section Visited

variable (h : Visited batchLimit round queue served left next)
include h

theorem Visited.mem
    (hother : other ∈ next.queues) : other = queue.after served left ∨ other ∈ round.queues := by
  rw [h.queues] at hother
  exact (List.mem_or_eq_of_mem_set hother).symm

theorem Visited.solvent (nonneg : 0 ≤ queue.credit) : cost served ≤ queue.credit := by
  rcases h.affordable with rfl | hpaid
  · exact nonneg
  · exact hpaid

theorem Visited.length :
    next.queues.length = round.queues.length := by
  rw [h.queues, List.length_set]

theorem Visited.keys :
    next.queues.map Queue.key = round.queues.map Queue.key := by
  rw [h.queues]
  exact map_set_of_eq h.found rfl

theorem Visited.all_positive
    (positive : ∀ queue ∈ round.queues, ∀ candidate ∈ queue.candidates, 1 ≤ candidate.slotCost) :
    ∀ queue ∈ next.queues, ∀ candidate ∈ queue.candidates, 1 ≤ candidate.slotCost := by
  intro other hother candidate hcandidate
  rcases h.mem hother with rfl | hother
  · refine positive queue (List.mem_of_getElem? h.found) candidate ?_
    rw [h.split]
    exact List.mem_append_right served hcandidate
  · exact positive other hother candidate hcandidate

theorem Visited.inside :
    next.cursor < next.queues.length := by
  rw [h.cursor, h.length]
  exact Nat.mod_lt _ (Nat.zero_lt_of_lt (List.getElem?_eq_some_iff.mp h.found).1)

end Visited

end Visit

theorem rounds_succ {round : Round} (h : rounds batchLimit (fuel + 1) round = .ok last) :
    round.continues batchLimit = false ∧ last = round ∨
      round.continues batchLimit = true ∧ ∃ next, visit batchLimit round = .ok next ∧
        rounds batchLimit fuel next = .ok last := by
  rw [rounds] at h
  split_ifs at h with hcontinues
  · split at h
    · exact .inr ⟨hcontinues, _, ‹_›, h⟩
    · cases h
  · exact .inl ⟨eq_false_of_ne_true hcontinues, (Except.ok.inj h).symm⟩

theorem visit_isOk (batchLimit : Int) {round : Round}
    (positive : ∀ queue ∈ round.queues, ∀ candidate ∈ queue.candidates, 1 ≤ candidate.slotCost) :
    ∃ next, visit batchLimit round = .ok next := by
  unfold visit
  cases hqueue : round.queues[round.cursor]? with
  | none => exact ⟨_, rfl⟩
  | some queue =>
    dsimp only
    split_ifs
    · exact ⟨_, rfl⟩
    · obtain ⟨turn, hserve⟩ := serve_isOk batchLimit (queue.deficit + queue.quantum)
        round.remaining round.grants false (positive queue (List.mem_of_getElem? hqueue))
      rw [hserve]
      exact ⟨_, rfl⟩

def visits (batchLimit : Int) : Nat → Round → List Round
  | 0, _ => []
  | fuel + 1, round =>
    if round.continues batchLimit then
      match visit batchLimit round with
      | .ok next => round :: visits batchLimit fuel next
      | .error _ => []
    else []

section Rule

variable {batchLimit : Int} {motive : List Round → Round → Prop}
  (turn : ∀ seen round queue served left next, round.continues batchLimit = true →
    Visited batchLimit round queue served left next → motive seen round →
    motive (seen ++ [round]) next)
include turn

theorem rounds_rule_from (seen : List Round) {round : Round}
    (inside : round.cursor < round.queues.length) (start : motive seen round)
    (h : rounds batchLimit fuel round = .ok last) :
    motive (seen ++ visits batchLimit fuel round) last := by
  induction fuel generalizing seen round with
  | zero =>
    obtain rfl := Except.ok.inj h
    rw [visits, List.append_nil]
    exact start
  | succ fuel ih =>
    rw [visits]
    rcases rounds_succ h with ⟨hstop, rfl⟩ | ⟨hcontinues, next, hvisit, hnext⟩
    · rw [if_neg (by simp [hstop]), List.append_nil]
      exact start
    · rw [if_pos hcontinues, hvisit]
      obtain ⟨queue, served, left, hvisited⟩ := visit_ok inside hvisit
      have hrest := ih (seen ++ [round]) hvisited.inside
        (turn seen round queue served left next hcontinues hvisited start) hnext
      rwa [List.append_assoc] at hrest

theorem rounds_rule {round : Round} (inside : round.cursor < round.queues.length)
    (start : motive [] round) (h : rounds batchLimit fuel round = .ok last) :
    motive (visits batchLimit fuel round) last :=
  rounds_rule_from turn [] inside start h

end Rule

theorem rounds_isOk (batchLimit : Int) (fuel : Nat) {round : Round}
    (inside : round.cursor < round.queues.length)
    (positive : ∀ queue ∈ round.queues, ∀ candidate ∈ queue.candidates, 1 ≤ candidate.slotCost) :
    ∃ last, rounds batchLimit fuel round = .ok last := by
  induction fuel generalizing round with
  | zero => exact ⟨_, rfl⟩
  | succ fuel ih =>
    rw [rounds]
    split_ifs
    · obtain ⟨next, hvisit⟩ := visit_isOk batchLimit positive
      rw [hvisit]
      obtain ⟨queue, served, left, hvisited⟩ := visit_ok inside hvisit
      exact ih hvisited.inside (hvisited.all_positive positive)
    · exact ⟨_, rfl⟩

theorem mem_cloneAndSort : queue ∈ cloneAndSort queues ↔ ∃ original ∈ queues,
      { original with candidates := sortCandidates original.candidates } = queue := by
  unfold cloneAndSort
  rw [List.mem_insertionSort, List.mem_map]

def Snapshot.start (input : Snapshot) : Round where
  queues := cloneAndSort input.queues
  cursor := (if input.cursor < 0 then 0 else input.cursor.toNat) % (cloneAndSort input.queues).length
  remaining := input.workerSlots
  grants := []
  visitedWithoutGrant := 0

def Snapshot.visits (input : Snapshot) : List Round :=
  Scheduler.visits input.batchLimit (turnBound input.batchLimit (cloneAndSort input.queues))
    input.start

theorem decide_eq (input : Snapshot) : decide input =
    if input.workerSlots < 0 then .error (.text "worker slots must not be negative")
    else if input.batchLimit < 0 then .error (.text "batch limit must not be negative")
    else if input.algorithm ≠ "" ∧ input.algorithm ≠ algorithmVersion then
      .error (.about "unsupported scheduler algorithm %q" [input.algorithm])
    else if (cloneAndSort input.queues).isEmpty ∨ input.workerSlots = 0 ∨ input.batchLimit = 0 then
      .ok (buildDecision input.sequence (cloneAndSort input.queues) 0 [])
    else
      match rounds input.batchLimit (turnBound input.batchLimit (cloneAndSort input.queues))
          input.start with
      | .ok round => .ok (buildDecision input.sequence round.queues round.cursor round.grants)
      | .error error => .error error := rfl

structure Ran (input : Snapshot) (decision : Decision) (last : Round) : Prop where
  nonempty : cloneAndSort input.queues ≠ []
  slots : 0 < input.workerSlots
  limit : 0 < input.batchLimit
  ran : rounds input.batchLimit (turnBound input.batchLimit (cloneAndSort input.queues))
    input.start = .ok last
  decision_eq : decision = buildDecision input.sequence last.queues last.cursor last.grants

theorem Ran.inside (h : Ran input decision last) : input.start.cursor < input.start.queues.length :=
  Nat.mod_lt _ (List.length_pos_iff.mpr h.nonempty)

theorem decide_cases (h : decide input = .ok decision) :
    (cloneAndSort input.queues = [] ∨ input.workerSlots = 0 ∨ input.batchLimit = 0) ∧
        decision = buildDecision input.sequence (cloneAndSort input.queues) 0 [] ∨
      ∃ last, Ran input decision last := by
  rw [decide_eq] at h
  split_ifs at h with hslots hlimit halgorithm hidle
  · rw [List.isEmpty_iff] at hidle
    exact .inl ⟨hidle, (Except.ok.inj h).symm⟩
  · rw [List.isEmpty_iff] at hidle
    push Not at hidle
    right
    split at h
    · rename_i last hrounds
      exact ⟨last, hidle.1, by omega, by omega, hrounds, (Except.ok.inj h).symm⟩
    · cases h

theorem start_stops {input : Snapshot} (h : cloneAndSort input.queues = [] ∨
    input.workerSlots = 0 ∨ input.batchLimit = 0) :
    input.start.continues input.batchLimit = false := by
  simp only [Round.continues, Bool.and_eq_false_iff, decide_eq_false_iff_not]
  unfold Snapshot.start
  rcases h with hempty | hslots | hlimit
  · simp [hempty]
  · simp [hslots]
  · simp [hlimit]

theorem visits_of_idle {input : Snapshot} (h : cloneAndSort input.queues = [] ∨
    input.workerSlots = 0 ∨ input.batchLimit = 0) : input.visits = [] := by
  have hstop := start_stops h
  unfold Snapshot.visits
  cases turnBound input.batchLimit (cloneAndSort input.queues) with
  | zero => rfl
  | succ fuel =>
    rw [visits, hstop]
    rfl

theorem start_positive {input : Snapshot}
    (h : ∀ queue ∈ input.queues, ∀ candidate ∈ queue.candidates, 1 ≤ candidate.slotCost) :
    ∀ queue ∈ input.start.queues, ∀ candidate ∈ queue.candidates, 1 ≤ candidate.slotCost := by
  intro queue hqueue candidate hcandidate
  obtain ⟨original, horiginal, rfl⟩ := mem_cloneAndSort.mp hqueue
  exact h original horiginal candidate (List.mem_insertionSort _ |>.mp hcandidate)

theorem decide_isOk (slots : 0 ≤ input.workerSlots) (limit : 0 ≤ input.batchLimit)
    (known : input.algorithm = "" ∨ input.algorithm = algorithmVersion)
    (positive : ∀ queue ∈ input.queues, ∀ candidate ∈ queue.candidates, 1 ≤ candidate.slotCost) :
    ∃ decision, decide input = .ok decision := by
  rw [decide_eq, if_neg (by omega), if_neg (by omega), if_neg fun h => known.elim h.1 h.2]
  split_ifs with hidle
  · exact ⟨_, rfl⟩
  · rw [List.isEmpty_iff] at hidle
    push Not at hidle
    have hinside : input.start.cursor < input.start.queues.length :=
      Nat.mod_lt _ (List.length_pos_iff.mpr hidle.1)
    obtain ⟨last, hrounds⟩ := rounds_isOk input.batchLimit
      (turnBound input.batchLimit (cloneAndSort input.queues)) hinside (start_positive positive)
    rw [hrounds]
    exact ⟨_, rfl⟩

end RailYard.Scheduler
