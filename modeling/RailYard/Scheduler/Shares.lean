import RailYard.Scheduler.Sequences
import RailYard.Library.RoundRobin

/-! What each queue gets out of a decision. Every grant is written down with the
place of the queue it came from, and every visit with the place of the cursor: the
jobs served at a place are a first part of its queue, and its deficit is what it
was paid less what they cost. -/
namespace RailYard.Scheduler
open Library.RoundRobin

variable {input : Snapshot} {decision : Decision} {batchLimit : Int} {round next last : Round}
  {queue after : Queue} {served left : List Candidate} {seen : List Round}
  {origins : List (Nat × Candidate)} {start : List Queue} {place : Nat}

def servedAt (origins : List (Nat × Candidate)) (place : Nat) : List Candidate :=
  (origins.filter fun entry => entry.1 = place).map Prod.snd

@[simp] theorem servedAt_nil (place : Nat) : servedAt [] place = [] := rfl

theorem servedAt_append (origins : List (Nat × Candidate)) (place other : Nat)
    (served : List Candidate) :
    servedAt (origins ++ served.map fun candidate => (place, candidate)) other =
      servedAt origins other ++ if place = other then served else [] := by
  unfold servedAt
  rw [List.filter_append, List.map_append, List.filter_map]
  split
  · rename_i hplace
    simp [Function.comp_def, hplace]
  · rename_i hplace
    simp [Function.comp_def, hplace]

def Round.pays (round : Round) (place : Nat) : Bool :=
  round.cursor = place && match round.queues[place]? with
    | some queue => !queue.candidates.isEmpty
    | none => false

def paidAt (seen : List Round) (place : Nat) : Nat := seen.countP fun round => round.pays place

theorem cost_append (served others : List Candidate) :
    cost (served ++ others) = cost served + cost others := by
  simp [cost]

structure Share (queue : Queue) (served : List Candidate) (paid : Nat) (after : Queue) :
    Prop where
  key : after.key = queue.key
  weight : after.weight = queue.weight
  split : queue.candidates = served ++ after.candidates
  deficit : after.deficit = queue.deficit + paid * queue.quantum - cost served
  unpaid : queue.candidates = [] → paid = 0
  solvent : 0 ≤ queue.deficit → 0 ≤ after.deficit

structure Shares (start : List Queue) (seen : List Round) (origins : List (Nat × Candidate))
    (round : Round) : Prop where
  length : round.queues.length = start.length
  inside : round.cursor < start.length
  grants : round.grants = origins.map fun entry => entry.2.grant
  places : ∀ entry ∈ origins, entry.1 < start.length
  share : ∀ place queue, start[place]? = some queue → ∃ after, round.queues[place]? = some after ∧
    Share queue (servedAt origins place) (paidAt seen place) after

theorem shares_start (queues : round.queues = start)
    (inside : round.cursor < start.length) (grants : round.grants = []) :
    Shares start [] [] round where
  length := by rw [queues]
  inside := inside
  grants := grants
  places := by simp
  share := fun place queue hqueue =>
    ⟨queue, by rw [queues, hqueue], rfl, rfl, rfl, by simp [paidAt], fun _ => rfl, id⟩

theorem Share.visit {before : List Candidate}
    (visited : Visited batchLimit round after served left next) (h : Share queue before paid after)
    :
    Share queue (before ++ served) (paid + if round.pays round.cursor then 1 else 0)
      (after.after served left) := by
  have hpays : round.pays round.cursor = !after.candidates.isEmpty := by
    unfold Round.pays
    rw [visited.found]
    simp
  have hquantum : after.quantum = queue.quantum := by
    unfold Queue.quantum
    rw [h.weight]
  have hcredit : after.credit = queue.deficit +
      ((paid + if round.pays round.cursor then 1 else 0 : Nat) : Int) * queue.quantum -
        cost before := by
    unfold Queue.credit
    rw [h.deficit, hquantum, hpays]
    cases after.candidates.isEmpty
    · simp only [Bool.not_false, if_true, Bool.false_eq_true, if_false]
      push_cast
      ring
    · simp
  refine ⟨h.key, h.weight, ?_, ?_, ?_, ?_⟩
  · rw [h.split, visited.split, List.append_assoc]
    rfl
  · change after.credit - cost served = _
    rw [hcredit, cost_append]
    ring
  · intro hempty
    have hnone : after.candidates = [] := by
      have hsplit := h.split
      rw [hempty] at hsplit
      exact (List.nil_eq_append_iff.mp hsplit).2
    rw [h.unpaid hempty, hpays, hnone]
    rfl
  · intro hnonneg
    have hquantum : 0 ≤ after.quantum := by
      unfold Queue.quantum
      split <;> omega
    have hpaid : 0 ≤ after.credit := by
      have hdeficit := h.solvent hnonneg
      unfold Queue.credit
      split <;> omega
    exact Int.sub_nonneg_of_le (visited.solvent hpaid)

theorem Shares.visit (visited : Visited batchLimit round queue served left next)
    (h : Shares start seen origins round) :
    Shares start (seen ++ [round])
      (origins ++ served.map fun candidate => (round.cursor, candidate)) next where
  length := by rw [visited.length, h.length]
  inside := by rw [← h.length, ← visited.length]; exact visited.inside
  grants := by
    rw [visited.grants, h.grants, List.map_append, List.map_map]
    rfl
  places := by
    intro entry hentry
    rcases List.mem_append.mp hentry with hentry | hentry
    · exact h.places entry hentry
    · obtain ⟨_, _, rfl⟩ := List.mem_map.mp hentry
      exact h.inside
  share := by
    intro place original horiginal
    obtain ⟨after, hafter, hshare⟩ := h.share place original horiginal
    rw [servedAt_append, paidAt, List.countP_append, List.countP_singleton, ← paidAt, visited.queues]
    by_cases hplace : round.cursor = place
    · subst hplace
      obtain rfl : after = queue := by
        have hfound := visited.found
        rw [hafter, Option.some.injEq] at hfound
        exact hfound
      refine ⟨after.after served left, ?_, ?_⟩
      · rw [List.getElem?_set_self (List.getElem?_eq_some_iff.mp hafter).1]
      · rw [if_pos rfl]
        exact hshare.visit visited
    · have hunpaid : round.pays place = false := by simp [Round.pays, hplace]
      refine ⟨after, ?_, ?_⟩
      · rw [List.getElem?_set_ne hplace, hafter]
      · rw [if_neg hplace, hunpaid, List.append_nil]
        exact hshare

theorem Ran.shares (ran : Ran input decision last) :
    ∃ origins, Shares input.start.queues input.visits origins last := by
  refine rounds_rule (motive := fun seen round => ∃ origins,
    Shares input.start.queues seen origins round) ?_ ran.inside
    ⟨[], shares_start rfl ran.inside rfl⟩ ran.ran
  rintro seen round queue served left next _ visited ⟨origins, h⟩
  exact ⟨_, h.visit visited⟩

theorem Ran.visit_shares (ran : Ran input decision last) : ∀ round ∈ input.visits,
    (∃ seen origins, Shares input.start.queues seen origins round) ∧
      round.grants <+: last.grants := by
  have hall := rounds_rule (motive := fun seen round =>
      (∃ origins, Shares input.start.queues seen origins round) ∧
      ∀ visit ∈ seen, (∃ earlier origins, Shares input.start.queues earlier origins visit) ∧
        visit.grants <+: round.grants)
    (fun seen round queue served left next _ visited h => by
      obtain ⟨⟨origins, hshares⟩, hseen⟩ := h
      have hgrants : round.grants <+: next.grants := by
        rw [visited.grants]
        exact List.prefix_append _ _
      refine ⟨⟨_, hshares.visit visited⟩, ?_⟩
      rw [List.forall_mem_append, List.forall_mem_singleton]
      exact ⟨fun visit hvisit => ⟨(hseen visit hvisit).1, (hseen visit hvisit).2.trans hgrants⟩,
        ⟨seen, origins, hshares⟩, hgrants⟩)
    ran.inside ⟨⟨[], shares_start rfl ran.inside rfl⟩,
      fun _ hvisit => (List.not_mem_nil hvisit).elim⟩ ran.ran
  exact hall.2

/-- The same for every decision on queues: where the loop is not entered, nothing is
visited and the cursor goes back to the first place. -/
theorem decide_shares (h : decide input = .ok decision) (nonempty : input.queues ≠ []) :
    ∃ origins last cursor, Shares input.start.queues input.visits origins last ∧
      cursor < input.start.queues.length ∧
      decision = buildDecision input.sequence last.queues cursor last.grants := by
  rcases decide_cases h with ⟨hidle, rfl⟩ | ⟨last, ran⟩
  · have hplaces : 0 < input.start.queues.length := by
      change 0 < (cloneAndSort input.queues).length
      unfold cloneAndSort
      rw [List.length_insertionSort, List.length_map]
      exact List.length_pos_iff.mpr nonempty
    rw [visits_of_idle hidle]
    exact ⟨[], input.start, 0, shares_start rfl (Nat.mod_lt _ hplaces) rfl, hplaces, rfl⟩
  · obtain ⟨origins, hshares⟩ := ran.shares
    exact ⟨origins, last, last.cursor, hshares, hshares.inside, ran.decision_eq⟩

section Origins

def JobsDistinct (queues : List Queue) : Prop :=
  (queues.flatMap fun queue => queue.candidates.map Candidate.jobID).Nodup

def grantsFrom (queue : Queue) (grants : List Grant) : List Grant :=
  grants.filter fun grant => grant.jobID ∈ queue.candidates.map Candidate.jobID

variable {queues : List Queue}

theorem place_unique (distinct : JobsDistinct queues) (hqueue : queues[place]? = some queue)
    (hqueue' : queues[other]? = some queue') {id : String}
    (hid : id ∈ queue.candidates.map Candidate.jobID)
    (hid' : id ∈ queue'.candidates.map Candidate.jobID) : place = other := by
  obtain ⟨_, hdisjoint⟩ := List.nodup_flatMap.mp distinct
  rw [List.pairwise_iff_getElem] at hdisjoint
  obtain ⟨hplace, rfl⟩ := List.getElem?_eq_some_iff.mp hqueue
  obtain ⟨hother, rfl⟩ := List.getElem?_eq_some_iff.mp hqueue'
  rcases Nat.lt_trichotomy place other with hless | heq | hless
  · exact (hdisjoint place other hplace hother hless hid hid').elim
  · exact heq
  · exact (hdisjoint other place hother hplace hless hid' hid).elim

theorem mem_servedAt {entry : Nat × Candidate} (h : entry ∈ origins) : entry.2 ∈ servedAt origins entry.1 :=
  List.mem_map.mpr ⟨entry, List.mem_filter.mpr ⟨h, by simp⟩, rfl⟩

theorem grantsFrom_eq (shares : Shares queues seen origins last) (distinct : JobsDistinct queues)
    (hqueue : queues[place]? = some queue) :
    grantsFrom queue last.grants = (servedAt origins place).map Candidate.grant := by
  unfold grantsFrom servedAt
  rw [shares.grants, List.filter_map, List.map_map]
  congr 1
  apply List.filter_congr
  intro entry hentry
  simp only [Function.comp_apply, decide_eq_decide]
  obtain ⟨home, hhome⟩ : ∃ home, queues[entry.1]? = some home :=
    ⟨_, List.getElem?_eq_getElem (shares.places entry hentry)⟩
  obtain ⟨after, _, hshare⟩ := shares.share entry.1 home hhome
  have hmem : entry.2.jobID ∈ home.candidates.map Candidate.jobID := by
    rw [hshare.split]
    exact List.mem_map_of_mem (List.mem_append_left _ (mem_servedAt hentry))
  constructor
  · intro hjob
    exact place_unique distinct hhome hqueue hmem hjob
  · rintro rfl
    rw [hhome, Option.some.injEq] at hqueue
    rwa [← hqueue]

theorem jobsDistinct_cloneAndSort (h : JobsDistinct queues) :
    JobsDistinct (cloneAndSort queues) := by
  have hjobs : ∀ queues : List Queue, (queues.flatMap fun queue =>
      queue.candidates.map Candidate.jobID) = (waiting queues).map Grant.jobID := by
    intro queues
    simp [waiting, List.map_flatMap, Function.comp_def, Candidate.grant]
  unfold JobsDistinct at h ⊢
  rw [hjobs] at h ⊢
  exact ((waiting_cloneAndSort queues).map _).nodup_iff.mpr h

theorem exists_place (h : queue ∈ input.queues) : ∃ place : Nat, input.start.queues[place]? =
      some { queue with candidates := sortCandidates queue.candidates } :=
  List.mem_iff_getElem?.mp (mem_cloneAndSort.mpr ⟨queue, h, rfl⟩)

theorem grantsFrom_sorted (queue : Queue) (grants : List Grant) :
    grantsFrom { queue with candidates := sortCandidates queue.candidates } grants =
      grantsFrom queue grants := by
  unfold grantsFrom
  apply List.filter_congr
  intro grant _
  have hperm := List.perm_insertionSort (fun a b => candidateLess b a = false) queue.candidates
  rw [decide_eq_decide]
  exact (hperm.map Candidate.jobID).mem_iff

theorem grantsFrom_prefix (h : decide input = .ok decision)
    (distinct : JobsDistinct input.queues) (hqueue : queue ∈ input.queues) :
    grantsFrom queue decision.grants <+: (sortCandidates queue.candidates).map Candidate.grant := by
  obtain ⟨origins, last, cursor, hshares, _, rfl⟩ := decide_shares h (List.ne_nil_of_mem hqueue)
  obtain ⟨place, hplace⟩ := exists_place hqueue
  obtain ⟨after, _, hshare⟩ := hshares.share place _ hplace
  have hsplit : sortCandidates queue.candidates = servedAt origins place ++ after.candidates :=
    hshare.split
  have hgrants : grantsFrom queue last.grants = (servedAt origins place).map Candidate.grant := by
    rw [← grantsFrom_sorted]
    exact grantsFrom_eq hshares (jobsDistinct_cloneAndSort distinct) hplace
  change grantsFrom queue last.grants <+: _
  rw [hgrants, hsplit, List.map_append]
  exact List.prefix_append _ _

end Origins

section Stuck

/-- Nothing more can be served at the place: the queue is empty, or its head is too
large for its credit or for the slots that are left. -/
def Round.stuck (round : Round) (place : Nat) : Prop :=
  ∀ queue head tail, round.queues[place]? = some queue → queue.candidates = head :: tail →
    queue.deficit < head.slotCost ∨ round.remaining < head.slotCost

structure Idling (places : Nat) (round : Round) : Prop where
  length : round.queues.length = places
  inside : round.cursor < places
  stuck : ∀ place < places,
    places ≤ ahead places round.cursor place + round.visitedWithoutGrant → round.stuck place

theorem Idling.visit (visited : Visited batchLimit round queue served left next)
    (continues : round.continues batchLimit = true) (h : Idling places round) :
    Idling places next := by
  have hcursor : next.cursor = (round.cursor + 1) % places := by rw [visited.cursor, h.length]
  have hlength : next.queues.length = places := by rw [visited.length, h.length]
  refine ⟨hlength, hlength ▸ visited.inside, ?_⟩
  intro place hplace hseen
  cases served with
  | cons candidate rest =>
    -- A grant starts a new count, and no place is that far ahead.
    have hvisited : next.visitedWithoutGrant = 0 := visited.visited
    have hless := ahead_lt next.cursor place (Nat.zero_lt_of_lt hplace)
    omega
  | nil =>
    have hvisited : next.visitedWithoutGrant = round.visitedWithoutGrant + 1 := visited.visited
    have hremaining : next.remaining = round.remaining := by
      rw [visited.remaining, cost_nil, sub_zero]
    rw [hcursor, ahead_next h.inside hplace, hvisited] at hseen
    intro found head tail hfound hhead
    rw [visited.queues] at hfound
    by_cases hself : round.cursor = place
    · subst hself
      rw [List.getElem?_set_self (by rw [h.length]; exact h.inside), Option.some.injEq] at hfound
      subst hfound
      obtain rfl : left = head :: tail := hhead
      have hroom : (next.grants.length : Int) < batchLimit := by
        simp only [Round.continues, Bool.and_eq_true, decide_eq_true_eq] at continues
        rw [visited.grants, List.map_nil, List.append_nil]
        exact continues.1.1
      rcases visited.stopped with hnone | hfull | ⟨first, others, hleft, hshort⟩
      · cases hnone
      · omega
      · cases hleft
        exact hshort
    · rw [List.getElem?_set_ne hself] at hfound
      rw [if_neg hself] at hseen
      have hahead : ahead places round.cursor place ≠ 0 := fun hzero =>
        hself ((ahead_eq_zero h.inside hplace).mp hzero)
      rw [hremaining]
      exact h.stuck place hplace (by omega) found head tail hfound hhead

theorem Ran.idling (ran : Ran input decision last) : Idling input.start.queues.length last := by
  refine rounds_rule (motive := fun _ round => Idling input.start.queues.length round)
    (fun _ _ _ _ _ _ continues visited h => h.visit visited continues) ran.inside
    ⟨rfl, ran.inside, fun place hplace hseen => ?_⟩ ran.ran
  have hless := ahead_lt input.start.cursor place (Nat.zero_lt_of_lt hplace)
  change input.start.queues.length ≤ _ + 0 at hseen
  omega

theorem Ran.stuck (ran : Ran input decision last)
    (room : (last.grants.length : Int) < input.batchLimit) (slots : 0 < last.remaining)
    (place : Nat) : last.stuck place := by
  have hidling := ran.idling
  have hstops := ran.stops
  simp only [Round.continues, Bool.and_eq_false_iff, decide_eq_false_iff_not] at hstops
  rcases hstops with (hroom | hslots) | hvisited
  · exact (hroom room).elim
  · exact (hslots slots).elim
  · intro queue head tail hqueue
    have hplace : place < input.start.queues.length := by
      rw [← hidling.length]
      exact (List.getElem?_eq_some_iff.mp hqueue).1
    rw [hidling.length] at hvisited
    exact hidling.stuck place hplace (by omega) queue head tail hqueue

end Stuck

section Visits

variable (ran : Ran input decision last)

include ran

theorem Ran.cursors (place : Nat) : (input.visits.countP fun round => round.cursor = place) =
      turns input.start.queues.length input.start.cursor input.visits.length place := by
  have hall := rounds_rule (motive := fun seen round =>
      round.queues.length = input.start.queues.length ∧
      round.cursor = (input.start.cursor + seen.length) % input.start.queues.length ∧
      (seen.countP fun round => round.cursor = place) =
        turns input.start.queues.length input.start.cursor seen.length place)
    (fun seen round queue served left next _ visited h => by
      obtain ⟨hlength, hcursor, hcount⟩ := h
      refine ⟨by rw [visited.length, hlength], ?_, ?_⟩
      · rw [visited.cursor, hlength, hcursor, List.length_append, List.length_singleton,
          Nat.mod_add_mod, Nat.add_assoc]
      · rw [List.countP_append, List.countP_singleton, List.length_append,
          List.length_singleton, turns_succ, hcount, hcursor]
        simp)
    ran.inside ⟨rfl, (Nat.mod_eq_of_lt ran.inside).symm, rfl⟩ ran.ran
  exact hall.2.2

theorem Ran.visits_idle (none : last.grants = []) :
    last.visitedWithoutGrant = input.visits.length := by
  have hall := rounds_rule (motive := fun seen round =>
      round.grants = [] → round.visitedWithoutGrant = seen.length)
    (fun seen round queue served left next _ visited h hgrants => by
      rw [visited.grants, List.append_eq_nil_iff, List.map_eq_nil_iff] at hgrants
      rw [visited.visited, hgrants.2, h hgrants.1, List.length_append]
      rfl)
    ran.inside (fun _ => rfl) ran.ran
  exact hall none

theorem Ran.visited_le : last.visitedWithoutGrant ≤ input.start.queues.length := by
  have hall := rounds_rule (motive := fun _ round =>
      round.queues.length = input.start.queues.length ∧
        round.visitedWithoutGrant ≤ input.start.queues.length)
    (fun _ round queue served left next continues visited h => by
      simp only [Round.continues, Bool.and_eq_true, decide_eq_true_eq] at continues
      refine ⟨by rw [visited.length, h.1], ?_⟩
      rw [visited.visited]
      split <;> omega)
    ran.inside ⟨rfl, Nat.zero_le _⟩ ran.ran
  exact hall.2

theorem Ran.visits_once (none : last.grants = []) (slots : 0 < last.remaining)
    (hplace : place < input.start.queues.length) :
    (input.visits.countP fun round => round.cursor = place) = 1 := by
  have hcounted := ran.visits_idle none
  have hle := ran.visited_le
  have hlength := ran.idling.length
  have hstops := ran.stops
  have hlimit := ran.limit
  simp only [Round.continues, Bool.and_eq_false_iff, decide_eq_false_iff_not, none,
    List.length_nil] at hstops
  have hcircle : input.visits.length = input.start.queues.length := by omega
  rw [ran.cursors, hcircle, turns_eq hplace, Nat.div_self (Nat.zero_lt_of_lt hplace), Nat.mod_self]
  simp

/-- and pays every queue that has candidates once. -/
theorem Ran.paid_once (none : last.grants = []) (slots : 0 < last.remaining)
    (hqueue : input.start.queues[place]? = some queue)
    (waits : queue.candidates ≠ []) : paidAt input.visits place = 1 := by
  rw [← ran.visits_once none slots (List.getElem?_eq_some_iff.mp hqueue).1]
  unfold paidAt
  apply List.countP_congr
  intro round hround
  obtain ⟨⟨seen, origins, hshares⟩, hgrants⟩ := ran.visit_shares round hround
  obtain ⟨after, hafter, hshare⟩ := hshares.share place queue hqueue
  rw [none, List.prefix_nil, hshares.grants, List.map_eq_nil_iff] at hgrants
  have hcandidates : after.candidates = queue.candidates := by
    rw [hshare.split, hgrants]
    rfl
  unfold Round.pays
  rw [hafter]
  simp [hcandidates, waits]

end Visits

end RailYard.Scheduler
