import RailYard.Library.RoundRobin
import RailYard.Scheduler.Rounds

/-! The jobs of a snapshot in the order of their turns. The queue that stands so
many places behind the cursor is visited once in every pass, and each visit pays
it one quantum. So the visit in which a queue can pay for a job is known from its
deficit and the costs up to the job alone, and what is left to the course of the
decision is how far the worker's slots and the batch limit reach in that order. -/
namespace RailYard.Scheduler
open Library.RoundRobin

/-- A job, the place of its queue, and the visit in which the queue can pay for it. -/
structure Due where
  visit : Nat
  place : Nat
  candidate : Candidate

/-- The jobs of a queue that is visited first in visit `first` and then after every
`count` visits. -/
def dues (count first place : Nat) (quantum deficit : Int) : List Candidate → List Due
  | [] => []
  | candidate :: rest =>
    ⟨first + count * ((candidate.slotCost - deficit - 1) / quantum).toNat, place, candidate⟩ ::
      dues count first place quantum (deficit - candidate.slotCost) rest

def turns (queues : List Queue) (cursor : Nat) : List Due :=
  (queues.zipIdx.flatMap fun entry => dues queues.length (ahead queues.length cursor entry.2)
    entry.2 entry.1.quantum entry.1.deficit entry.1.candidates).insertionSort
      fun a b => a.visit ≤ b.visit

/-- The jobs that are served when their turns come: until the batch is full, or as
many visits as there are queues pass without a grant. A job that is larger than the
slots that are left holds up its queue. -/
def taken (count : Nat) (slots : Int) (limit deadline : Nat) (held : List Nat) :
    List Due → List Candidate
  | [] => []
  | due :: rest =>
    if due.place ∈ held then taken count slots limit deadline held rest
    else if limit = 0 ∨ deadline ≤ due.visit then []
    else if due.candidate.slotCost ≤ slots then
      due.candidate :: taken count (slots - due.candidate.slotCost) (limit - 1)
        (due.visit + 1 + count) held rest
    else taken count slots limit deadline (due.place :: held) rest

def Snapshot.inTurn (input : Snapshot) : List Candidate :=
  taken input.start.queues.length input.workerSlots input.batchLimit.toNat
    input.start.queues.length [] (turns input.start.queues input.start.cursor)

section Dues

variable {count first place : Nat} {quantum deficit : Int} {due : Due}

theorem dues_append (served left : List Candidate) :
    dues count first place quantum deficit (served ++ left) =
      dues count first place quantum deficit served ++
        dues count first place quantum (deficit - cost served) left := by
  induction served generalizing deficit with
  | nil => simp [dues]
  | cons candidate served ih =>
    rw [List.cons_append, dues, dues, ih, List.cons_append, cost_cons,
      ← Int.sub_sub deficit candidate.slotCost]

theorem mem_dues (h : due ∈ dues count first place quantum deficit candidates) :
    first ≤ due.visit ∧ due.place = place ∧ due.candidate ∈ candidates := by
  induction candidates generalizing deficit with
  | nil => cases h
  | cons candidate rest ih =>
    rcases List.mem_cons.mp h with rfl | hrest
    · exact ⟨Nat.le_add_right _ _, rfl, List.mem_cons_self⟩
    · obtain ⟨hvisit, hplace, hmem⟩ := ih hrest
      exact ⟨hvisit, hplace, List.mem_cons_of_mem _ hmem⟩

theorem map_dues : (dues count first place quantum deficit candidates).map Due.candidate =
    candidates := by
  induction candidates generalizing deficit with
  | nil => rfl
  | cons candidate rest ih => rw [dues, List.map_cons, ih]

/-- What one visit can pay for is due in it. -/
theorem visit_of_affordable (hquantum : 0 < quantum)
    (positive : ∀ candidate ∈ served, 1 ≤ candidate.slotCost)
    (affordable : served = [] ∨ cost served ≤ deficit + quantum) :
    ∀ due ∈ dues count first place quantum deficit served, due.visit = first := by
  induction served generalizing deficit with
  | nil => simp [dues]
  | cons candidate served ih =>
    rw [List.forall_mem_cons] at positive
    have hpaid : cost (candidate :: served) ≤ deficit + quantum :=
      affordable.resolve_left (List.cons_ne_nil _ _)
    rw [cost_cons] at hpaid
    have hrest := length_le_cost positive.2
    rw [dues, List.forall_mem_cons]
    refine ⟨?_, ih positive.2 (.inr (by omega))⟩
    have hnow : (candidate.slotCost - deficit - 1) / quantum < 1 :=
      Int.ediv_lt_of_lt_mul hquantum (by omega)
    dsimp only
    rw [Int.toNat_of_nonpos (by omega), Nat.mul_zero, Nat.add_zero]

/-- A head that one quantum does not pay for keeps its turn when the quantum is paid. -/
theorem dues_later (hquantum : 0 < quantum)
    (positive : ∀ candidate ∈ left, 1 ≤ candidate.slotCost)
    (later : left = [] ∨ ∃ head tail, left = head :: tail ∧ deficit + quantum < head.slotCost) :
    dues count first place quantum deficit left =
      dues count (first + count) place quantum (deficit + quantum) left := by
  induction left generalizing deficit with
  | nil => rfl
  | cons candidate left ih =>
    rw [List.forall_mem_cons] at positive
    obtain ⟨_, _, heq, hlarge⟩ := later.resolve_left (List.cons_ne_nil _ _)
    obtain ⟨rfl, rfl⟩ := List.cons.inj heq
    have hdiv : (candidate.slotCost - (deficit + quantum) - 1) / quantum =
        (candidate.slotCost - deficit - 1) / quantum - 1 := by
      rw [show candidate.slotCost - (deficit + quantum) - 1 =
        candidate.slotCost - deficit - 1 - quantum by omega]
      exact Int.sub_ediv_of_dvd _ (dvd_refl _) |>.trans (by rw [Int.ediv_self hquantum.ne'])
    have hlate : 1 ≤ (candidate.slotCost - deficit - 1) / quantum :=
      (Int.le_ediv_iff_mul_le hquantum).mpr (by omega)
    obtain ⟨passes, hpasses⟩ : ∃ passes : Nat,
        (candidate.slotCost - deficit - 1) / quantum = passes + 1 :=
      ⟨((candidate.slotCost - deficit - 1) / quantum - 1).toNat, by omega⟩
    have hvisit : first + count * ((candidate.slotCost - deficit - 1) / quantum).toNat =
        first + count + count * ((candidate.slotCost - (deficit + quantum) - 1) / quantum).toNat := by
      rw [hdiv, hpasses, add_sub_cancel_right, Int.toNat_natCast,
        show ((passes : Int) + 1).toNat = passes + 1 by omega, Nat.mul_succ]
      omega
    have htail : dues count first place quantum (deficit - candidate.slotCost) left =
        dues count (first + count) place quantum (deficit - candidate.slotCost + quantum) left := by
      refine ih positive.2 ?_
      cases left with
      | nil => exact .inl rfl
      | cons next tail =>
        have hnext := positive.2 next List.mem_cons_self
        exact .inr ⟨next, tail, rfl, by omega⟩
    rw [dues, dues, hvisit, htail, sub_add_eq_add_sub]

end Dues

section Taken

variable {count limit deadline : Nat} {slots : Int} {held : List Nat} {line segment : List Due}

theorem taken_nil (stops : ∀ due ∈ line,
      limit = 0 ∨ deadline ≤ due.visit ∨ slots < due.candidate.slotCost) :
    taken count slots limit deadline held line = [] := by
  induction line generalizing held with
  | nil => rfl
  | cons due rest ih =>
    rw [List.forall_mem_cons] at stops
    rw [taken]
    split_ifs with _ _ hfits
    · exact ih stops.2
    · rfl
    · omega
    · exact ih stops.2

theorem taken_held (h : place ∈ held) : taken count slots limit deadline held line =
    taken count slots limit deadline held (line.filter fun due => due.place ≠ place) := by
  induction line generalizing slots limit deadline held with
  | nil => rfl
  | cons due rest ih =>
    by_cases hplace : due.place = place
    · rw [List.filter_cons_of_neg (by simp [hplace]), ← ih h, taken, if_pos (hplace ▸ h)]
    · rw [List.filter_cons_of_pos (by simp [hplace]), taken, taken]
      split_ifs
      · exact ih h
      · rfl
      · rw [← ih h]
      · exact ih (List.mem_cons_of_mem _ h)

theorem taken_append (now : ∀ due ∈ segment, due.place ∉ held ∧ due.visit = time)
    (intime : time < deadline) (positive : ∀ due ∈ segment, 1 ≤ due.candidate.slotCost)
    (fits : cost (segment.map Due.candidate) ≤ slots) (room : segment.length ≤ limit) :
    taken count slots limit deadline held (segment ++ line) = segment.map Due.candidate ++
      taken count (slots - cost (segment.map Due.candidate)) (limit - segment.length)
        (if segment.isEmpty then deadline else time + 1 + count) held line := by
  induction segment generalizing slots limit deadline with
  | nil => simp
  | cons due rest ih =>
    rw [List.forall_mem_cons] at now positive
    rw [List.map_cons, cost_cons] at fits
    rw [List.length_cons] at room
    have hrest : 0 ≤ cost (rest.map Due.candidate) := by
      refine le_trans (Int.natCast_nonneg _) (length_le_cost ?_)
      rw [List.forall_mem_map]
      exact positive.2
    rw [List.cons_append, taken, if_neg now.1.1, if_neg (by rw [now.1.2]; omega),
      if_pos (by omega), now.1.2, ih now.2 (by omega) positive.2 (by omega) (by omega)]
    simp only [List.map_cons, List.cons_append, cost_cons, List.length_cons, List.isEmpty_cons,
      Bool.false_eq_true, if_false, ite_self, Int.sub_sub, Nat.sub_sub, Nat.add_comm 1]

end Taken

def Round.upcoming (limit : Int) (round : Round) (time : Nat) (held : List Nat)
    (line : List Due) : List Candidate :=
  taken round.queues.length round.remaining (limit.toNat - round.grants.length)
    (time + (round.queues.length - round.visitedWithoutGrant)) held line

section Line

variable {limit : Int} {round next last : Round} {time : Nat} {held held' : List Nat}
  {line line' segment rest : List Due} {queue : Queue} {served left : List Candidate}

/-- The jobs that are still to come, by the queues as the loop has left them. -/
structure Lined (round : Round) (time : Nat) (held : List Nat) (line : List Due) : Prop where
  sorted : line.Pairwise fun a b => a.visit ≤ b.visit
  inside : ∀ due ∈ line, due.place < round.queues.length
  free : ∀ place queue, round.queues[place]? = some queue → place ∉ held →
    (line.filter fun due => due.place = place) =
      dues round.queues.length (time + ahead round.queues.length round.cursor place) place
        queue.quantum queue.deficit queue.candidates
  stuck : ∀ place ∈ held, (∀ due ∈ line, due.place ≠ place) ∧ ∀ queue,
    round.queues[place]? = some queue →
      ∃ head tail, queue.candidates = head :: tail ∧ round.remaining < head.slotCost

theorem Lined.mem (lined : Lined round time held line) (h : due ∈ line) :
    ∃ queue, round.queues[due.place]? = some queue ∧ due.candidate ∈ queue.candidates ∧
      time + ahead round.queues.length round.cursor due.place ≤ due.visit := by
  have hqueue := List.getElem?_eq_getElem (lined.inside due h)
  have hfree : due.place ∉ held := fun hheld => (lined.stuck _ hheld).1 due h rfl
  have hmem : due ∈ line.filter fun other => other.place = due.place :=
    List.mem_filter.mpr ⟨h, by simp⟩
  rw [lined.free _ _ hqueue hfree] at hmem
  obtain ⟨hvisit, _, hcandidate⟩ := mem_dues hmem
  exact ⟨_, hqueue, hcandidate, hvisit⟩

theorem front_of_sorted (sorted : line.Pairwise fun a b => a.visit ≤ b.visit)
    (others : ∀ due ∈ line, due.place ≠ place → time < due.visit)
    (mine : (line.filter fun due => due.place = place) = segment ++ rest)
    (now : ∀ due ∈ segment, due.visit = time) : ∃ later, line = segment ++ later := by
  induction segment generalizing line with
  | nil => exact ⟨line, rfl⟩
  | cons first segment ih =>
    rw [List.forall_mem_cons] at now
    cases line with
    | nil => cases mine
    | cons due line =>
      rw [List.pairwise_cons] at sorted
      rw [List.forall_mem_cons] at others
      by_cases hplace : due.place = place
      · rw [List.filter_cons_of_pos (by simp [hplace]), List.cons_append] at mine
        obtain ⟨rfl, hmine⟩ := List.cons.inj mine
        obtain ⟨later, rfl⟩ := ih sorted.2 others.2 hmine now.2
        exact ⟨later, rfl⟩
      · rw [List.filter_cons_of_neg (by simp [hplace])] at mine
        have hfirst : first ∈ line := by
          refine List.mem_of_mem_filter (p := fun due => due.place = place) ?_
          rw [mine]
          exact List.mem_cons_self
        have hle := sorted.1 first hfirst
        have hlate := others.1 hplace
        omega

theorem ahead_of_ne (hcursor : cursor < count) (hplace : place < count) (hne : place ≠ cursor) :
    ahead count cursor place = ahead count ((cursor + 1) % count) place + 1 := by
  have hpositive := mt (ahead_eq_zero hcursor hplace).mp (Ne.symm hne)
  rw [ahead_next hcursor hplace, if_neg (Ne.symm hne)]
  omega

theorem Queue.quantum_pos (queue : Queue) : 0 < queue.quantum := by
  unfold Queue.quantum
  split_ifs <;> omega

theorem Queue.credit_eq (h : queue.candidates ≠ []) :
    queue.credit = queue.deficit + queue.quantum := by
  unfold Queue.credit
  rw [if_neg (by simp [h])]

variable (visited : Visited limit round queue served left next)
include visited

theorem Visited.remaining_le : next.remaining ≤ round.remaining := by
  have hcost := length_le_cost visited.positive
  have hremaining := visited.remaining
  omega

theorem Lined.advance (lined : Lined round time held line) (part : line'.Sublist line)
    (others : ∀ place, place ≠ round.cursor →
      (place ∈ held' ↔ place ∈ held) ∧ (line'.filter fun due => due.place = place) =
        line.filter fun due => due.place = place)
    (mine : round.cursor ∉ held' → (line'.filter fun due => due.place = round.cursor) =
      dues round.queues.length (time + round.queues.length) round.cursor queue.quantum
        (queue.credit - cost served) left)
    (stuck : round.cursor ∈ held' → (∀ due ∈ line', due.place ≠ round.cursor) ∧
      ∃ head tail, left = head :: tail ∧ next.remaining < head.slotCost) :
    Lined next (time + 1) held' line' := by
  have hcursor := (List.getElem?_eq_some_iff.mp visited.found).1
  refine ⟨lined.sorted.sublist part, ?_, ?_, ?_⟩
  · rw [visited.length]
    exact fun due hdue => lined.inside due (part.subset hdue)
  · intro place other hother hfree
    rw [visited.queues] at hother
    rw [visited.length, visited.cursor]
    by_cases hplace : place = round.cursor
    · subst hplace
      rw [List.getElem?_set_self hcursor] at hother
      obtain rfl := Option.some.inj hother
      rw [mine hfree, ahead_next hcursor hcursor, if_pos rfl, Nat.add_assoc,
        Nat.add_sub_cancel' (by omega)]
      rfl
    · rw [List.getElem?_set_ne (Ne.symm hplace)] at hother
      have hinside := (List.getElem?_eq_some_iff.mp hother).1
      obtain ⟨hheld, hfilter⟩ := others place hplace
      rw [hfilter, lined.free place other hother (mt hheld.mpr hfree),
        ahead_of_ne hcursor hinside hplace, Nat.add_right_comm, Nat.add_assoc]
  · intro place hheld
    by_cases hplace : place = round.cursor
    · subst hplace
      obtain ⟨hnone, hlarge⟩ := stuck hheld
      refine ⟨hnone, fun other hother => ?_⟩
      rw [visited.queues, List.getElem?_set_self hcursor] at hother
      obtain rfl := Option.some.inj hother
      exact hlarge
    · obtain ⟨hnone, hlarge⟩ := lined.stuck place ((others place hplace).1.mp hheld)
      refine ⟨fun due hdue => hnone due (part.subset hdue), fun other hother => ?_⟩
      rw [visited.queues, List.getElem?_set_ne (Ne.symm hplace)] at hother
      obtain ⟨head, tail, heq, hless⟩ := hlarge other hother
      exact ⟨head, tail, heq, lt_of_le_of_lt visited.remaining_le hless⟩

theorem Visited.served_nil_of_large (nonneg : 0 ≤ round.remaining)
    (large : ∃ head tail, queue.candidates = head :: tail ∧ round.remaining < head.slotCost) :
    served = [] := by
  obtain ⟨head, tail, heq, hlarge⟩ := large
  rw [visited.split] at heq
  cases served with
  | nil => rfl
  | cons first served =>
    obtain ⟨rfl, _⟩ := List.cons.inj heq
    have hleft := visited.nonneg nonneg
    have hrest := length_le_cost (List.forall_mem_cons.mp visited.positive).2
    rw [visited.remaining, cost_cons] at hleft
    omega

theorem Lined.others (lined : Lined round time held line) :
    ∀ due ∈ line, due.place ≠ round.cursor → time < due.visit := by
  intro due hdue hplace
  obtain ⟨_, _, _, hvisit⟩ := lined.mem hdue
  have hcursor := (List.getElem?_eq_some_iff.mp visited.found).1
  rw [ahead_of_ne hcursor (lined.inside due hdue) hplace] at hvisit
  omega

/-- What a visit serves stands at the front of the line. -/
theorem Lined.front (lined : Lined round time held line) (nonneg : 0 ≤ round.remaining)
    (continues : round.continues limit = true) (free : round.cursor ∉ held) :
    ∃ later, line = dues round.queues.length time round.cursor queue.quantum queue.deficit served ++
        later ∧
      (later.filter fun due => due.place = round.cursor) = dues round.queues.length time
        round.cursor queue.quantum (queue.deficit - cost served) left ∧
      round.upcoming limit time held line = served ++ next.upcoming limit (time + 1) held later := by
  simp only [Round.continues, Bool.and_eq_true, decide_eq_true_eq] at continues
  obtain ⟨⟨hroom, _⟩, hidle⟩ := continues
  have hcursor := (List.getElem?_eq_some_iff.mp visited.found).1
  have hmine := lined.free _ queue visited.found free
  rw [(ahead_eq_zero hcursor hcursor).mpr rfl, Nat.add_zero, visited.split, dues_append] at hmine
  have hnow : ∀ due ∈ dues round.queues.length time round.cursor queue.quantum queue.deficit served,
      due.visit = time := by
    refine visit_of_affordable queue.quantum_pos visited.positive ?_
    by_cases hserved : served = []
    · exact .inl hserved
    · right
      rw [← Queue.credit_eq (by simp [visited.split, hserved])]
      exact visited.affordable.resolve_left hserved
  obtain ⟨later, rfl⟩ := front_of_sorted lined.sorted (lined.others visited) hmine hnow
  refine ⟨later, rfl, ?_, ?_⟩
  · rw [List.filter_append, List.filter_eq_self.mpr] at hmine
    · exact List.append_cancel_left hmine
    · intro due hdue
      simp [(mem_dues hdue).2.1]
  · have hleft := visited.nonneg nonneg
    have hgrants := visited.room hroom.le
    rw [visited.remaining] at hleft
    rw [visited.grants, List.length_append, List.length_map] at hgrants
    rw [Round.upcoming, Round.upcoming, visited.length,
      taken_append (fun due hdue => ⟨(mem_dues hdue).2.1 ▸ free, hnow due hdue⟩) (by omega)
        (fun due hdue => visited.positive _ (mem_dues hdue).2.2) (by rw [map_dues]; omega)
        (by rw [← List.length_map (f := Due.candidate), map_dues]; omega),
      map_dues, visited.remaining, visited.grants, visited.visited,
      ← List.length_map (f := Due.candidate), map_dues, List.length_append, List.length_map,
      Nat.sub_sub]
    congr 2
    cases served with
    | nil =>
      simp only [dues, List.isEmpty_nil, if_true]
      omega
    | cons first served => rfl

/-- One visit takes the jobs that are due in it off the line. -/
theorem Lined.visit (lined : Lined round time held line) (nonneg : 0 ≤ round.remaining)
    (positive : ∀ candidate ∈ queue.candidates, 1 ≤ candidate.slotCost)
    (continues : round.continues limit = true) :
    ∃ held' line', (limit ≤ next.grants.length ∨ Lined next (time + 1) held' line') ∧
      round.upcoming limit time held line =
        served ++ next.upcoming limit (time + 1) held' line' := by
  by_cases hheld : round.cursor ∈ held
  · -- A queue that is held up gets nothing, and its visit is idle.
    obtain ⟨hnone, hlarge⟩ := lined.stuck _ hheld
    obtain rfl := visited.served_nil_of_large nonneg (hlarge queue visited.found)
    have hleft : queue.candidates = left := visited.split
    refine ⟨held, line, .inr (lined.advance visited (.refl _) (fun _ _ => ⟨.rfl, rfl⟩)
      (absurd hheld) fun _ => ⟨hnone, ?_⟩), ?_⟩
    · rw [← hleft, visited.remaining, cost_nil, sub_zero]
      exact hlarge queue visited.found
    · simp only [Round.continues, Bool.and_eq_true, decide_eq_true_eq] at continues
      rw [Round.upcoming, Round.upcoming, visited.length, visited.remaining, visited.grants,
        visited.visited]
      simp only [cost_nil, sub_zero, List.map_nil, List.append_nil, List.isEmpty_nil, if_true,
        List.nil_append]
      congr 1
      omega
  obtain ⟨later, rfl, hlater, htaken⟩ := lined.front visited nonneg continues hheld
  have hpart : later.Sublist (dues round.queues.length time round.cursor queue.quantum queue.deficit
      served ++ later) := List.sublist_append_right _ _
  have hothers : ∀ place, place ≠ round.cursor → (later.filter fun due => due.place = place) =
      (dues round.queues.length time round.cursor queue.quantum queue.deficit served ++
        later).filter fun due => due.place = place := by
    intro place hplace
    have hnone : ((dues round.queues.length time round.cursor queue.quantum queue.deficit
        served).filter fun due => due.place = place) = [] := by
      rw [List.filter_eq_nil_iff]
      intro due hdue
      simpa [(mem_dues hdue).2.1] using Ne.symm hplace
    rw [List.filter_append, hnone, List.nil_append]
  have hpositive : ∀ candidate ∈ left, 1 ≤ candidate.slotCost := by
    intro candidate hcandidate
    refine positive candidate ?_
    rw [visited.split]
    exact List.mem_append_right served hcandidate
  by_cases hfull : limit ≤ next.grants.length
  · exact ⟨held, later, .inl hfull, htaken⟩
  by_cases hcovers : left = [] ∨ ∃ head tail, left = head :: tail ∧
      queue.deficit - cost served + queue.quantum < head.slotCost
  · -- The queue has served what it can pay for.
    refine ⟨held, later, .inr (lined.advance visited hpart
      (fun place hplace => ⟨.rfl, hothers place hplace⟩) (fun _ => ?_) (absurd · hheld)), htaken⟩
    rw [hlater, dues_later queue.quantum_pos hpositive hcovers]
    cases left with
    | nil => rfl
    | cons head tail =>
      rw [Queue.credit_eq (by simp [visited.split]), sub_add_eq_add_sub]
  · -- The head is due now, but larger than the slots that are left.
    push Not at hcovers
    obtain ⟨head, tail, rfl⟩ := List.exists_cons_of_ne_nil hcovers.1
    have hpays := hcovers.2 head tail rfl
    have hcredit : queue.credit = _ := Queue.credit_eq (by simp [visited.split])
    have hlarge : next.remaining < head.slotCost := by
      rcases visited.stopped with hnil | hbatch | ⟨_, _, heq, hstop⟩
      · cases hnil
      · exact absurd hbatch hfull
      · obtain ⟨rfl, _⟩ := List.cons.inj heq
        omega
    have hnow : ∀ due ∈ dues round.queues.length time round.cursor queue.quantum
        (queue.deficit - cost served) [head], due.visit = time :=
      visit_of_affordable queue.quantum_pos
        (List.forall_mem_singleton.mpr (hpositive head List.mem_cons_self))
        (.inr (by simpa using hpays))
    obtain ⟨more, rfl⟩ := front_of_sorted (lined.sorted.sublist hpart)
      (fun due hdue => lined.others visited due (hpart.subset hdue))
      (hlater.trans (dues_append [head] tail)) hnow
    refine ⟨round.cursor :: held, more.filter fun due => due.place ≠ round.cursor,
      .inr (lined.advance visited ?_ ?_ ?_ ?_), ?_⟩
    · exact (List.filter_sublist.trans (List.sublist_append_right _ _)).trans hpart
    · intro place hplace
      refine ⟨by simp [hplace], ?_⟩
      rw [← hothers place hplace, dues, List.filter_append, List.filter_cons_of_neg
        (by simpa using Ne.symm hplace), List.filter_filter]
      apply List.filter_congr
      intro due _
      by_cases hdue : due.place = place
      · simp [hdue, hplace]
      · simp [hdue]
    · exact fun hfree => absurd List.mem_cons_self hfree
    · refine fun _ => ⟨fun due hdue => ?_, head, tail, rfl, hlarge⟩
      simpa using (List.mem_filter.mp hdue).2
    · have hvisit := hnow _ List.mem_cons_self
      rw [htaken, Round.upcoming, Round.upcoming, dues, List.cons_append, taken, if_neg hheld,
        if_neg, if_neg (by simpa using hlarge), taken_held List.mem_cons_self]
      · rfl
      · omega

end Line

section Start

variable {limit : Int} {round last : Round} {time : Nat} {held : List Nat} {line : List Due}
  {input : Snapshot}

theorem Lined.taken_stopped (lined : Lined round time held line)
    (positive : ∀ queue ∈ round.queues, ∀ candidate ∈ queue.candidates, 1 ≤ candidate.slotCost)
    (stops : round.continues limit = false) :
    round.upcoming limit time held line = [] := by
  refine taken_nil fun due hdue => ?_
  obtain ⟨queue, hqueue, hcandidate, hvisit⟩ := lined.mem hdue
  have hcost := positive queue (List.mem_of_getElem? hqueue) _ hcandidate
  simp only [Round.continues, Bool.and_eq_false_iff, decide_eq_false_iff_not] at stops
  omega

theorem rounds_taken (lined : Lined round time held line) (nonneg : 0 ≤ round.remaining)
    (inside : round.cursor < round.queues.length)
    (positive : ∀ queue ∈ round.queues, ∀ candidate ∈ queue.candidates, 1 ≤ candidate.slotCost)
    (h : rounds limit fuel round = .ok last) (stops : last.continues limit = false) :
    last.grants = round.grants ++ (round.upcoming limit time held line).map Candidate.grant := by
  induction fuel generalizing round time held line with
  | zero =>
    obtain rfl := Except.ok.inj h
    rw [lined.taken_stopped positive stops, List.map_nil, List.append_nil]
  | succ fuel ih =>
    rcases rounds_succ h with ⟨hstop, rfl⟩ | ⟨hcontinues, next, hvisit, hrest⟩
    · rw [lined.taken_stopped positive hstop, List.map_nil, List.append_nil]
    · obtain ⟨queue, served, left, visited⟩ := visit_ok inside hvisit
      have hqueue := positive queue (List.mem_of_getElem? visited.found)
      obtain ⟨held', line', hnext, htaken⟩ := lined.visit visited nonneg hqueue hcontinues
      rw [htaken, List.map_append, ← List.append_assoc, ← visited.grants]
      rcases hnext with hfull | hlined
      · have hends : next.continues limit = false := by
          simp only [Round.continues, Bool.and_eq_false_iff, decide_eq_false_iff_not]
          omega
        have hnow : rounds limit 0 next = .ok next := rfl
        obtain rfl := Except.ok.inj ((rounds_mono hnow hends (Nat.zero_le fuel)).symm.trans hrest)
        rw [Round.upcoming, taken_nil fun _ _ => .inl (by omega), List.map_nil, List.append_nil]
      · exact ih hlined (visited.nonneg nonneg) visited.inside (visited.all_positive positive)
          hrest

theorem le_visit_of_mem_dues {low : Int} (hquantum : 0 < quantum)
    (positive : ∀ candidate ∈ candidates, 1 ≤ candidate.slotCost) (hlow : low ≤ -deficit)
    (h : due ∈ dues count first place quantum deficit candidates) :
    first + count * (low / quantum).toNat ≤ due.visit := by
  induction candidates generalizing deficit with
  | nil => cases h
  | cons candidate rest ih =>
    rw [List.forall_mem_cons] at positive
    rcases List.mem_cons.mp h with rfl | hrest
    · have hdiv := Int.ediv_le_ediv hquantum
        (show low ≤ candidate.slotCost - deficit - 1 by omega)
      have hpasses := Nat.mul_le_mul_left count (Int.toNat_le_toNat hdiv)
      dsimp only
      omega
    · exact ih positive.2 (by omega) hrest

theorem pairwise_dues (hquantum : 0 < quantum)
    (positive : ∀ candidate ∈ candidates, 1 ≤ candidate.slotCost) :
    (dues count first place quantum deficit candidates).Pairwise fun a b => a.visit ≤ b.visit := by
  induction candidates generalizing deficit with
  | nil => exact .nil
  | cons candidate rest ih =>
    rw [List.forall_mem_cons] at positive
    rw [dues, List.pairwise_cons]
    refine ⟨fun due hdue => ?_, ih positive.2⟩
    exact le_visit_of_mem_dues hquantum positive.2 (by omega) hdue

theorem filter_insertionSort_of_pairwise {items : List Due} {keep : Due → Bool}
    (sorted : (items.filter keep).Pairwise fun a b => a.visit ≤ b.visit) :
    (items.insertionSort fun a b => a.visit ≤ b.visit).filter keep = items.filter keep := by
  have htotal : Std.Total fun a b : Due => a.visit ≤ b.visit := ⟨fun a b => le_total _ _⟩
  have htrans : IsTrans Due fun a b => a.visit ≤ b.visit := ⟨fun a b c => le_trans⟩
  have hsub := (List.sublist_insertionSort sorted List.filter_sublist).filter keep
  simp only [List.filter_filter, Bool.and_self] at hsub
  have hperm := (List.perm_insertionSort (fun a b : Due => a.visit ≤ b.visit) items).filter keep
  exact (hsub.eq_of_length hperm.length_eq.symm).symm

theorem filter_flatMap_zipIdx {queues : List Queue} (content : Queue × Nat → List Due) (start : Nat)
    (placed : ∀ entry, ∀ due ∈ content entry, due.place = entry.2)
    (h : queues[index]? = some queue) :
    ((queues.zipIdx start).flatMap content).filter (fun due => due.place = start + index) =
      content (queue, start + index) := by
  have hself : ∀ entry, ((content entry).filter fun due => due.place = entry.2) = content entry :=
    fun entry => List.filter_eq_self.mpr fun due hdue => by simp [placed entry due hdue]
  have hnone : ∀ entry place, entry.2 ≠ place →
      ((content entry).filter fun due => due.place = place) = [] := by
    intro entry place hplace
    rw [List.filter_eq_nil_iff]
    intro due hdue
    simpa [placed entry due hdue] using hplace
  induction queues generalizing start index with
  | nil => cases h
  | cons first queues ih =>
    rw [List.zipIdx_cons, List.flatMap_cons, List.filter_append]
    cases index with
    | zero =>
      obtain rfl := Option.some.inj h
      have hlater : ((queues.zipIdx (start + 1)).flatMap content).filter
          (fun due => due.place = start) = [] := by
        rw [List.filter_eq_nil_iff]
        intro due hdue
        obtain ⟨entry, hentry, hdue⟩ := List.mem_flatMap.mp hdue
        have hplace := List.le_snd_of_mem_zipIdx hentry
        rw [placed entry due hdue, decide_eq_true_eq]
        omega
      rw [Nat.add_zero, hlater, List.append_nil]
      exact hself (first, start)
    | succ index =>
      rw [hnone _ _ (by simp), List.nil_append, ← Nat.add_assoc, Nat.add_right_comm]
      exact ih _ h

theorem lined_start (positive : ∀ queue ∈ input.start.queues, ∀ candidate ∈ queue.candidates,
      1 ≤ candidate.slotCost) :
    Lined input.start 0 [] (turns input.start.queues input.start.cursor) := by
  have htotal : Std.Total fun a b : Due => a.visit ≤ b.visit := ⟨fun a b => le_total _ _⟩
  have htrans : IsTrans Due fun a b => a.visit ≤ b.visit := ⟨fun a b c => le_trans⟩
  refine ⟨List.pairwise_insertionSort _ _, ?_, ?_, by simp⟩
  · intro due hdue
    obtain ⟨entry, hentry, hdue⟩ := List.mem_flatMap.mp (List.mem_insertionSort _ |>.mp hdue)
    rw [(mem_dues hdue).2.1]
    exact List.snd_lt_of_mem_zipIdx hentry
  · intro place queue hqueue _
    have hall := filter_flatMap_zipIdx (fun entry => dues input.start.queues.length
      (ahead input.start.queues.length input.start.cursor entry.2) entry.2 entry.1.quantum
        entry.1.deficit entry.1.candidates) 0 (fun _ _ hdue => (mem_dues hdue).2.1) hqueue
    rw [Nat.zero_add] at hall ⊢
    unfold turns
    rw [filter_insertionSort_of_pairwise, hall]
    rw [hall]
    exact pairwise_dues queue.quantum_pos (positive queue (List.mem_of_getElem? hqueue))

theorem inTurn_of_stops (stops : input.start.continues input.batchLimit = false)
    (positive : ∀ queue ∈ input.queues, ∀ candidate ∈ queue.candidates, 1 ≤ candidate.slotCost) :
    input.inTurn = [] := by
  have hnone := (lined_start (start_positive positive)).taken_stopped (start_positive positive) stops
  rw [Round.upcoming, Nat.zero_add] at hnone
  exact hnone

/-- A decision grants the jobs that it has slots and turns for. -/
theorem decide_inTurn (h : decide input = .ok decision)
    (positive : ∀ queue ∈ input.queues, ∀ candidate ∈ queue.candidates, 1 ≤ candidate.slotCost) :
    decision.grants = input.inTurn.map Candidate.grant := by
  have hpositive := start_positive positive
  rcases decide_cases h with ⟨hidle, rfl⟩ | ⟨last, ran⟩
  · rw [inTurn_of_stops (start_stops hidle) positive]
    rfl
  · have htaken := rounds_taken (lined_start hpositive) ran.slots.le ran.inside hpositive ran.ran
      ran.stops
    rw [Round.upcoming, Nat.zero_add] at htaken
    rw [ran.decision_eq]
    exact htaken

end Start

end RailYard.Scheduler
