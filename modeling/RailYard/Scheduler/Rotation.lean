import RailYard.Library.RoundRobin
import RailYard.Scheduler.Credit

/-! Decisions over the same queues every time. The cursor is then an index into
one list of names, and the visits of all decisions together go round it. -/
namespace RailYard.Scheduler
open Library.RoundRobin

def ordered (keys : List (String × String)) : List (String × String) :=
  keys.insertionSort fun a b => toLex a ≤ toLex b

theorem ordered_perm (keys : List (String × String)) : (ordered keys).Perm keys :=
  List.perm_insertionSort _ _

theorem pairwise_ordered (keys : List (String × String)) :
    (ordered keys).Pairwise fun a b => toLex a ≤ toLex b := by
  have htotal : Std.Total fun a b : String × String => toLex a ≤ toLex b :=
    ⟨fun a b => le_total (toLex a) (toLex b)⟩
  have htrans : IsTrans (String × String) fun a b => toLex a ≤ toLex b :=
    ⟨fun _ _ _ hab hbc => le_trans hab hbc⟩
  exact List.pairwise_insertionSort _ keys

theorem keys_cloneAndSort {keys : List (String × String)} (h : (queues.map Queue.key).Perm keys) :
    (cloneAndSort queues).map Queue.key = ordered keys := by
  refine List.Perm.eq_of_pairwise
    (fun _ _ _ _ hab hba => toLex.injective (le_antisymm hab hba)) ?_ (pairwise_ordered keys) ?_
  · rw [List.pairwise_map]
    exact (ranks_queueLess.pairwise_sort _).imp fun hle => (ranks_queueLess.le_iff _ _).mp hle
  · have hclone : ((cloneAndSort queues).map Queue.key).Perm (queues.map Queue.key) := by
      unfold cloneAndSort
      refine ((List.perm_insertionSort _ _).map _).trans ?_
      rw [List.map_map]
      exact .refl _
    exact hclone.trans (h.trans (ordered_perm keys).symm)

theorem keys_start {carried : Carried} {input : Snapshot} {keys : List (String × String)}
    (h : (input.queues.map Queue.key).Perm keys) :
    (carried.snapshot input).start.queues.map Queue.key = ordered keys := by
  apply keys_cloneAndSort
  unfold Carried.snapshot
  rw [List.map_map]
  exact h

def Carried.place (carried : Carried) (places : Nat) : Nat :=
  (if carried.cursor < 0 then 0 else carried.cursor.toNat) % places

theorem Ran.place_after (ran : Ran input decision last) (carried : Carried) :
    (carried.after decision).place last.queues.length = last.cursor := by
  have inside : last.cursor < last.queues.length :=
    rounds_rule (motive := fun _ round => round.cursor < round.queues.length)
      (fun _ _ _ _ _ _ _ visited _ => visited.inside) ran.inside ran.inside ran.ran
  have hnonempty : last.queues.isEmpty = false :=
    List.isEmpty_eq_false_iff.mpr (List.ne_nil_of_length_pos (by omega))
  unfold Carried.place Carried.after
  rw [ran.decision_eq]
  unfold buildDecision
  dsimp only
  rw [hnonempty, if_neg Bool.false_ne_true, if_neg (by omega), Int.toNat_natCast]
  exact Nat.mod_eq_of_lt inside

def grantsOf (key : String × String) (grants : List Grant) : Nat :=
  grants.countP fun grant => grant.key = key

section Uniform

structure Uniform (keys : List (String × String)) (input : Snapshot) : Prop where
  queues : (input.queues.map Queue.key).Perm keys
  weights : ∀ queue ∈ input.queues, queue.weight = 1
  costs : ∀ queue ∈ input.queues, ∀ candidate ∈ queue.candidates, candidate.slotCost = 1
  homes : ∀ queue ∈ input.queues, ∀ candidate ∈ queue.candidates,
    (candidate.tenantID, candidate.queue) = queue.key
  enough : ∀ queue ∈ input.queues,
    min input.workerSlots input.batchLimit ≤ queue.candidates.length
  slots : 0 < input.workerSlots
  limit : 0 < input.batchLimit
  known : input.algorithm = "" ∨ input.algorithm = algorithmVersion

structure Stocked (enough : Int) (queue : Queue) : Prop where
  weight : queue.weight = 1
  deficit : queue.deficit = 0
  costs : ∀ candidate ∈ queue.candidates, candidate.slotCost = 1
  homes : ∀ candidate ∈ queue.candidates, (candidate.tenantID, candidate.queue) = queue.key
  enough : enough ≤ queue.candidates.length

structure InTurn (keys : List (String × String)) (start total : Nat)
    (counted : String × String → Nat) (slots limit : Int) (round : Round) : Prop where
  names : round.queues.map Queue.key = keys
  stocked : ∀ queue ∈ round.queues, Stocked (min slots limit - round.grants.length) queue
  cursor : round.cursor = (start + (total + round.grants.length)) % keys.length
  remaining : round.remaining = slots - round.grants.length
  counts : ∀ place key, keys[place]? = some key → counted key + grantsOf key round.grants =
    turns keys.length start (total + round.grants.length) place

variable {keys : List (String × String)} {start total : Nat}

theorem Stocked.served {enough batchLimit : Int} {round next : Round} {queue : Queue}
    {served left : List Candidate} (visited : Visited batchLimit round queue served left next)
    (continues : round.continues batchLimit = true) (h : Stocked enough queue)
    (positive : 0 < enough) : ∃ candidate, served = [candidate] ∧
      queue.candidates = candidate :: left ∧ (queue.after served left).deficit = 0 := by
  have hmore := h.enough
  have hne : queue.candidates ≠ [] := List.ne_nil_of_length_pos (by omega)
  have hcredit : queue.credit = 1 := by
    unfold Queue.credit Queue.quantum
    rw [h.deficit, h.weight, if_neg (mt List.isEmpty_iff.mp hne)]
    rfl
  have hpaid := visited.solvent (by omega)
  have hlength := length_le_cost visited.positive
  have hcosts : ∀ candidate ∈ served, candidate.slotCost = 1 := fun candidate hcandidate =>
    h.costs candidate (by rw [visited.split]; exact List.mem_append_left left hcandidate)
  match served, visited with
  | [], visited =>
    rcases visited.idle continues with hempty | ⟨head, tail, hhead, hstop⟩
    · exact (hne hempty).elim
    · have hcost := h.costs head (by rw [hhead]; exact List.mem_cons_self ..)
      simp only [Round.continues, Bool.and_eq_true, decide_eq_true_eq] at continues
      rcases hstop with hless | hshort
      · omega
      · unfold Round.short at hshort
        rw [visited.found] at hshort
        dsimp only at hshort
        rw [hhead] at hshort
        dsimp only at hshort
        rw [if_neg (by omega)] at hshort
        cases hshort
  | [candidate], visited =>
    refine ⟨candidate, rfl, visited.split, ?_⟩
    change queue.credit - cost [candidate] = 0
    rw [hcredit, cost_cons, hcosts candidate (List.mem_singleton_self _), cost_nil]
    rfl
  | _ :: _ :: _, _ =>
    simp only [List.length_cons] at hlength
    omega

theorem InTurn.visit {slots limit : Int} {round next : Round} {queue : Queue}
    {served left : List Candidate} (nodup : keys.Nodup)
    (h : InTurn keys start total counted slots limit round)
    (continues : round.continues limit = true)
    (visited : Visited limit round queue served left next) :
    InTurn keys start total counted slots limit next := by
  have hqueue := h.stocked queue (List.mem_of_getElem? visited.found)
  have hlength : round.queues.length = keys.length := by rw [← h.names, List.length_map]
  have hplace : keys[round.cursor]? = some queue.key := by
    rw [← h.names, List.getElem?_map, visited.found, Option.map_some]
  have hinside := (List.getElem?_eq_some_iff.mp hplace).1
  have hleft : 0 < min slots limit - round.grants.length := by
    simp only [Round.continues, Bool.and_eq_true, decide_eq_true_eq, h.remaining] at continues
    omega
  obtain ⟨candidate, rfl, hsplit, hdeficit⟩ := hqueue.served visited continues hleft
  have hmem : candidate ∈ queue.candidates := by
    rw [hsplit]
    exact List.mem_cons_self ..
  have hgrants : next.grants = round.grants ++ [candidate.grant] := visited.grants
  have hmore : next.grants.length = round.grants.length + 1 := by
    rw [hgrants, List.length_append, List.length_singleton]
  refine ⟨?_, ?_, ?_, ?_, ?_⟩
  · rw [visited.keys, h.names]
  · intro other hother
    rcases visited.mem hother with rfl | hother
    · have henough := hqueue.enough
      rw [hsplit, List.length_cons] at henough
      refine ⟨hqueue.weight, hdeficit, fun c hc => ?_, fun c hc => ?_, ?_⟩
      · exact hqueue.costs c (by rw [hsplit]; exact List.mem_cons_of_mem _ hc)
      · exact hqueue.homes c (by rw [hsplit]; exact List.mem_cons_of_mem _ hc)
      · change _ ≤ (left.length : Int)
        omega
    · have hstocked := h.stocked other hother
      exact { hstocked with enough := le_trans (by omega) hstocked.enough }
  · rw [visited.cursor, hlength, h.cursor, hmore, Nat.mod_add_mod]
    congr 1
  · rw [visited.remaining, h.remaining, cost_cons, hqueue.costs candidate hmem, cost_nil, hmore]
    push_cast
    omega
  · intro place key hkey
    have hcount := h.counts place key hkey
    have hsucc := turns_succ keys.length start (total + round.grants.length) place
    have hhome : candidate.grant.key = queue.key := hqueue.homes candidate hmem
    have hiff : candidate.grant.key = key ↔
        (start + (total + round.grants.length)) % keys.length = place := by
      rw [← h.cursor, hhome]
      constructor
      · rintro rfl
        exact (List.getElem?_inj hinside nodup).mp (hplace.trans hkey.symm)
      · rintro rfl
        rw [hplace, Option.some.injEq] at hkey
        exact hkey
    rw [hmore, ← Nat.add_assoc, hsucc, ← hcount, hgrants]
    unfold grantsOf
    rw [List.countP_append, List.countP_singleton]
    simp only [decide_eq_true_eq, hiff, Nat.add_assoc]

structure Rotating (keys : List (String × String)) (start total : Nat)
    (counted : String × String → Nat) (carried : Carried) : Prop where
  deficits : ∀ key ∈ keys, carried.deficits key = 0
  place : carried.place keys.length = (start + total) % keys.length
  counts : ∀ place key, keys[place]? = some key →
    counted key = turns keys.length start total place

theorem Rotating.decide (nodup : keys.Nodup) (nonempty : keys ≠ []) (uniform : Uniform keys input)
    (h : Rotating (ordered keys) start total counted carried)
    (hdecision : Scheduler.decide (carried.snapshot input) = .ok decision) :
    Rotating (ordered keys) start (total + decision.grants.length)
      (fun key => counted key + grantsOf key decision.grants) (carried.after decision) := by
  have hkeys : (carried.snapshot input).start.queues.map Queue.key = ordered keys :=
    keys_start uniform.queues
  have hperm := ordered_perm keys
  have hlength : (carried.snapshot input).start.queues.length = (ordered keys).length := by
    rw [← hkeys, List.length_map]
  have hfirst : InTurn (ordered keys) start total counted input.workerSlots input.batchLimit
      (carried.snapshot input).start := by
    refine ⟨hkeys, fun queue hqueue => ?_, ?_, ?_, ?_⟩
    · obtain ⟨original, horiginal, rfl⟩ := mem_start hqueue
      refine ⟨uniform.weights original horiginal, ?_, fun c hc => ?_, fun c hc => ?_, ?_⟩
      · exact h.deficits _ (hperm.mem_iff.mpr
          (uniform.queues.subset (List.mem_map_of_mem horiginal)))
      · exact uniform.costs original horiginal c (mem_sortCandidates.mp hc)
      · exact uniform.homes original horiginal c (mem_sortCandidates.mp hc)
      · have henough := uniform.enough original horiginal
        change _ - ((0 : Nat) : Int) ≤ ((sortCandidates original.candidates).length : Int)
        unfold sortCandidates
        rw [List.length_insertionSort]
        omega
    · change (if carried.cursor < 0 then 0 else carried.cursor.toNat) %
        (carried.snapshot input).start.queues.length = (start + (total + 0)) % _
      rw [hlength, add_zero, ← h.place]
      rfl
    · change input.workerSlots = input.workerSlots - ((0 : Nat) : Int)
      omega
    · exact h.counts
  rcases decide_cases hdecision with ⟨hidle, _⟩ | ⟨last, ran⟩
  · have hslots := uniform.slots
    have hlimit := uniform.limit
    rcases hidle with hempty | hzero | hzero
    · have hnil : ordered keys = [] := by
        rw [← hkeys]
        change List.map _ (cloneAndSort (carried.snapshot input).queues) = []
        rw [hempty]
        rfl
      rw [hnil, List.nil_perm] at hperm
      exact (nonempty hperm).elim
    · change input.workerSlots = 0 at hzero
      omega
    · change input.batchLimit = 0 at hzero
      omega
  · have hlast := rounds_rule (motive := fun _ round =>
        InTurn (ordered keys) start total counted input.workerSlots input.batchLimit round)
      (fun _ _ _ _ _ _ continues visited hround =>
        hround.visit (hperm.nodup_iff.mpr nodup) continues visited) ran.inside hfirst ran.ran
    have hgrants : decision.grants = last.grants := by
      rw [ran.decision_eq]
      rfl
    have hlastLength : last.queues.length = (ordered keys).length := by
      rw [← hlast.names, List.length_map]
    rw [hgrants]
    refine ⟨fun key hkey => ?_, ?_, fun place key hkey => ?_⟩
    · change (decision.deficit? key).getD _ = 0
      cases hdeficit : decision.deficit? key with
      | none => exact h.deficits key hkey
      | some deficit =>
        rw [ran.decision_eq] at hdeficit
        obtain ⟨queue, hqueue, _, rfl⟩ := deficit?_buildDecision hdeficit
        exact (hlast.stocked queue hqueue).deficit
    · rw [← hlastLength, ran.place_after carried, hlast.cursor, hlastLength]
    · exact hlast.counts place key hkey

end Uniform

section Starvation

/-- A snapshot in which a queue waits among at most `n`, with costs up to `m`,
for a worker of at least `w` slots. -/
structure Contended (n m w : Nat) (key : String × String) (input : Snapshot) : Prop where
  few : input.queues.length ≤ n
  names : (input.queues.map Queue.key).Nodup
  weights : ∀ queue ∈ input.queues, queue.weight = 1
  costs : ∀ queue ∈ input.queues, ∀ candidate ∈ queue.candidates,
    1 ≤ candidate.slotCost ∧ candidate.slotCost ≤ m
  homes : ∀ queue ∈ input.queues, ∀ candidate ∈ queue.candidates,
    (candidate.tenantID, candidate.queue) = queue.key
  slots : w ≤ input.workerSlots
  limit : 1 ≤ input.batchLimit
  known : input.algorithm = "" ∨ input.algorithm = algorithmVersion
  waits : ∃ queue ∈ input.queues, queue.key = key ∧ ∃ head tail,
    sortCandidates queue.candidates = head :: tail ∧ head.slotCost ≤ w

/-- Visits of other queues and unpaid visits that a queue can still see before
its head is affordable. -/
def reach (m places place : Nat) (deficit : Int) (cursor : Nat) : Nat :=
  places * (m - 1 - deficit).toNat + ahead places cursor place

theorem reach_lt (hm : 0 < m) (hplaces : 0 < places) (nonneg : 0 ≤ deficit) :
    reach m places place deficit cursor < places * m := by
  have hahead := ahead_lt cursor place hplaces
  have hlack : (m - 1 - deficit).toNat ≤ m - 1 := by omega
  have hmul := Nat.mul_le_mul_left places hlack
  have hwhole : places * m = places * (m - 1) + places := by
    rw [← Nat.mul_succ]
    congr 1
    omega
  unfold reach
  omega

structure Unserved (m : Nat) (key : String × String) (place budget visits : Nat)
    (queue : Queue) (round : Round) : Prop where
  found : round.queues[place]? = some queue
  name : queue.key = key
  weight : queue.weight = 1
  nonneg : 0 ≤ queue.deficit
  waits : queue.candidates ≠ []
  costs : ∀ candidate ∈ queue.candidates, candidate.slotCost ≤ m
  homes : ∀ candidate ∈ queue.candidates, (candidate.tenantID, candidate.queue) = key
  budget : reach m round.queues.length place queue.deficit round.cursor + visits ≤ budget

variable {m place budget visits : Nat}

theorem Unserved.visit {round next : Round} (h : Unserved m key place budget visits queue round)
    (continues : round.continues batchLimit = true)
    (visited : Visited batchLimit round visitedQueue served left next)
    (unpassed : round.short ≠ some key) :
    (∃ grant ∈ next.grants, grant.key = key) ∨
      ∃ after, Unserved m key place budget (visits + 1) after next := by
  have hplace := (List.getElem?_eq_some_iff.mp h.found).1
  have hcursor := (List.getElem?_eq_some_iff.mp visited.found).1
  have hbudget := h.budget
  have hnext := ahead_next hcursor hplace
  have hzero := ahead_eq_zero hcursor hplace
  unfold reach at hbudget
  by_cases hsame : round.cursor = place
  · obtain rfl : visitedQueue = queue := by
      have hfound := visited.found
      rw [hsame, h.found, Option.some.injEq] at hfound
      exact hfound.symm
    rw [if_pos hsame] at hnext
    cases served with
    | cons candidate rest =>
      left
      refine ⟨candidate.grant, ?_, h.homes candidate ?_⟩
      · rw [visited.grants]
        exact List.mem_append_right _ (List.mem_cons_self ..)
      · rw [visited.split]
        exact List.mem_cons_self ..
    | nil =>
      right
      rcases visited.idle continues with hempty | ⟨head, tail, hhead, hcredit | hshort⟩
      · exact (h.waits hempty).elim
      · have hcost := h.costs head (by rw [hhead]; exact List.mem_cons_self ..)
        have hpaid : visitedQueue.credit = visitedQueue.deficit + 1 := by
          unfold Queue.credit Queue.quantum
          rw [h.weight, if_neg (mt List.isEmpty_iff.mp h.waits)]
          rfl
        have hdeficit : (visitedQueue.after [] left).deficit = visitedQueue.deficit + 1 := by
          change visitedQueue.credit - cost [] = _
          rw [hpaid, cost_nil, sub_zero]
        have hnonneg := h.nonneg
        have hsplit : visitedQueue.candidates = left := visited.split
        refine ⟨visitedQueue.after [] left, ?_, h.name, h.weight, by omega, ?_, ?_, ?_, ?_⟩
        · rw [visited.queues, hsame, List.getElem?_set_self hplace]
        · change left ≠ []
          rw [← hsplit]
          exact h.waits
        · exact fun c hc => h.costs c (hsplit ▸ hc)
        · exact fun c hc => h.homes c (hsplit ▸ hc)
        · unfold reach
          rw [visited.length, visited.cursor, hnext, hdeficit]
          obtain ⟨lack, hlack⟩ : ∃ lack, (m - 1 - visitedQueue.deficit).toNat = lack + 1 :=
            ⟨(m - 1 - visitedQueue.deficit).toNat - 1, by omega⟩
          have hless : (m - 1 - (visitedQueue.deficit + 1)).toNat = lack := by omega
          rw [hlack, Nat.mul_succ] at hbudget
          rw [hless]
          omega
      · exact (unpassed (hshort.trans (congrArg some h.name))).elim
  · right
    rw [if_neg hsame] at hnext
    refine ⟨queue, ?_, h.name, h.weight, h.nonneg, h.waits, h.costs, h.homes, ?_⟩
    · rw [visited.queues, List.getElem?_set_ne hsame, h.found]
    · unfold reach
      rw [visited.length, visited.cursor, hnext]
      omega

theorem deficit?_of_mem {sequence : Int} (nodup : (queues.map Queue.key).Nodup) (h : queue ∈ queues)
    :
    (buildDecision sequence queues cursor grants).deficit? queue.key = some queue.deficit := by
  cases hdeficit : (buildDecision sequence queues cursor grants).deficit? queue.key with
  | none =>
    rw [Decision.deficit?, Option.map_eq_none_iff, List.find?_eq_none] at hdeficit
    exact (hdeficit _ (List.mem_map_of_mem h) (by simp)).elim
  | some deficit =>
    obtain ⟨other, hother, hkey, rfl⟩ := deficit?_buildDecision hdeficit
    rw [List.inj_on_of_nodup_map nodup hother h hkey]

theorem Ran.visits_pos (ran : Ran input decision last) : 0 < input.visits.length := by
  have hslots := ran.slots
  have hlimit := ran.limit
  have hplaces := List.length_pos_iff.mpr ran.nonempty
  have hcontinues : input.start.continues input.batchLimit = true := by
    simp only [Round.continues, Bool.and_eq_true, decide_eq_true_eq]
    exact ⟨⟨hlimit, hslots⟩, hplaces⟩
  have hran := ran.ran
  unfold Snapshot.visits
  obtain ⟨fuel, hfuel⟩ : ∃ fuel, turnBound input.batchLimit (cloneAndSort input.queues) =
      fuel + 1 := ⟨_, (Nat.succ_pred_eq_of_pos (by unfold turnBound; positivity)).symm⟩
  rw [hfuel] at hran ⊢
  rw [rounds, if_pos hcontinues] at hran
  cases hvisit : visit input.batchLimit input.start with
  | error error =>
    rw [hvisit] at hran
    cases hran
  | ok next =>
    rw [Scheduler.visits, if_pos hcontinues]
    simp only [hvisit, List.length_cons, Nat.zero_lt_succ]

theorem reach_decide {keys : List (String × String)} {input : Snapshot} {decision : Decision}
    {carried : Carried} (nonneg : 0 ≤ carried.deficits key)
    (steady : (input.queues.map Queue.key).Perm keys) (contended : Contended n m w key input)
    (hplace : (ordered keys)[place]? = some key)
    (unpassed : (carried.snapshot input).passes key = 0)
    (hdecision : decide (carried.snapshot input) = .ok decision) :
    (∃ grant ∈ decision.grants, grant.key = key) ∨
      0 ≤ (carried.after decision).deficits key ∧
      reach m keys.length place ((carried.after decision).deficits key)
          ((carried.after decision).place keys.length) <
        reach m keys.length place (carried.deficits key) (carried.place keys.length) := by
  have hkeys : (carried.snapshot input).start.queues.map Queue.key = ordered keys :=
    keys_start steady
  have hlengths : (ordered keys).length = keys.length := (ordered_perm keys).length_eq
  have hlength : (carried.snapshot input).start.queues.length = keys.length := by
    rw [← hlengths, ← hkeys, List.length_map]
  have hnodup : (ordered keys).Nodup :=
    ((ordered_perm keys).trans steady.symm).nodup_iff.mpr contended.names
  have hinside := (List.getElem?_eq_some_iff.mp hplace).1
  obtain ⟨queue, hqueue, hname⟩ : ∃ queue,
      (carried.snapshot input).start.queues[place]? = some queue ∧ queue.key = key := by
    rw [← hkeys, List.getElem?_map, Option.map_eq_some_iff] at hplace
    exact hplace
  have hfirst : Unserved m key place
      (reach m keys.length place (carried.deficits key) (carried.place keys.length)) 0 queue
      (carried.snapshot input).start := by
    obtain ⟨original, horiginal, rfl⟩ := mem_start (List.mem_of_getElem? hqueue)
    change original.key = key at hname
    refine ⟨hqueue, hname, contended.weights original horiginal, ?_, ?_, fun c hc => ?_,
      fun c hc => ?_, ?_⟩
    · change 0 ≤ carried.deficits original.key
      rwa [hname]
    · obtain ⟨waiting, hwaiting, hsame, head, tail, hhead, _⟩ := contended.waits
      obtain rfl := List.inj_on_of_nodup_map contended.names hwaiting horiginal
        (hsame.trans hname.symm)
      change sortCandidates waiting.candidates ≠ []
      rw [hhead]
      exact List.cons_ne_nil _ _
    · exact (contended.costs original horiginal c (mem_sortCandidates.mp hc)).2
    · exact (contended.homes original horiginal c (mem_sortCandidates.mp hc)).trans hname
    · rw [hlength]
      change reach m keys.length place (carried.deficits original.key)
        (carried.place (carried.snapshot input).start.queues.length) + 0 ≤ _
      rw [hname, hlength]
      omega
  rcases decide_cases hdecision with ⟨hidle, _⟩ | ⟨last, ran⟩
  · have hslots := contended.slots
    have hlimit := contended.limit
    rcases hidle with hempty | hzero | hzero
    · have hnil : (carried.snapshot input).start.queues = [] := hempty
      rw [hnil] at hqueue
      cases hqueue
    · change input.workerSlots = 0 at hzero
      obtain ⟨waiting, hwaiting, _, head, tail, hhead, hfits⟩ := contended.waits
      have hcost := (contended.costs waiting hwaiting head
        (mem_sortCandidates.mp (by rw [hhead]; exact List.mem_cons_self ..))).1
      omega
    · change input.batchLimit = 0 at hzero
      omega
  · have hlast := rounds_rule (motive := fun seen round =>
        (∀ visit ∈ seen, visit.short ≠ some key) →
          round.queues.map Queue.key = ordered keys ∧
          ((∃ grant ∈ round.grants, grant.key = key) ∨ ∃ queue, Unserved m key place
            (reach m keys.length place (carried.deficits key) (carried.place keys.length))
            seen.length queue round))
      (fun seen round visitedQueue served left next continues visited hround hunpassed => by
        rw [List.forall_mem_append, List.forall_mem_singleton] at hunpassed
        obtain ⟨hnames, hstate⟩ := hround hunpassed.1
        refine ⟨by rw [visited.keys, hnames], ?_⟩
        rcases hstate with ⟨grant, hgrant, hkey⟩ | ⟨queue, hunserved⟩
        · left
          refine ⟨grant, ?_, hkey⟩
          rw [visited.grants]
          exact List.mem_append_left _ hgrant
        · rw [List.length_append, List.length_singleton]
          exact hunserved.visit continues visited hunpassed.2)
      ran.inside (fun _ => ⟨hkeys, .inr ⟨queue, hfirst⟩⟩) ran.ran
    have hnever : ∀ visit ∈ (carried.snapshot input).visits, visit.short ≠ some key := by
      unfold Snapshot.passes at unpassed
      rw [List.countP_eq_zero] at unpassed
      exact fun visit hvisit hshort => unpassed visit hvisit (decide_eq_true hshort)
    obtain ⟨hnames, hstate⟩ := hlast hnever
    have hlastLength : last.queues.length = keys.length := by
      rw [← hlengths, ← hnames, List.length_map]
    have hgrants : decision.grants = last.grants := by
      rw [ran.decision_eq]
      rfl
    rw [hgrants]
    refine hstate.imp_right fun ⟨after, hafter⟩ => ?_
    have hdeficit : (carried.after decision).deficits key = after.deficit := by
      have hsome : decision.deficit? key = some after.deficit := by
        rw [ran.decision_eq, ← hafter.name]
        exact deficit?_of_mem (hnames ▸ hnodup) (List.mem_of_getElem? hafter.found)
      change (decision.deficit? key).getD _ = _
      rw [hsome, Option.getD_some]
    have hmoved := ran.place_after carried
    rw [hlastLength] at hmoved
    have hbudget := hafter.budget
    rw [hlastLength] at hbudget
    have hvisits := ran.visits_pos
    refine ⟨?_, ?_⟩
    · rw [hdeficit]
      exact hafter.nonneg
    · rw [hdeficit, hmoved]
      change 0 < (Scheduler.visits _ _ _).length at hvisits
      omega

end Starvation

end RailYard.Scheduler
