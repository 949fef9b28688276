import RailYard.Scheduler.Canonical
import RailYard.Scheduler.Journal

/-! Decisions one after the other. The store carries the cursor and the deficit
of every queue from one decision to the next; everything else of a snapshot is
new each time. -/
namespace RailYard.Scheduler
open Domain

structure Carried where
  cursor : Int
  deficits : String × String → Int

namespace Carried

def zero : Carried := ⟨0, fun _ => 0⟩

def snapshot (carried : Carried) (input : Snapshot) : Snapshot :=
  { input with
    cursor := carried.cursor
    queues := input.queues.map fun queue =>
      { queue with deficit := carried.deficits queue.key } }

def after (carried : Carried) (decision : Decision) : Carried where
  cursor := decision.nextCursor
  deficits := fun key => (decision.deficit? key).getD (carried.deficits key)

end Carried

def decideAll (carried : Carried) : List Snapshot → Except Error (List Decision × Carried)
  | [] => .ok ([], carried)
  | input :: rest =>
    match decide (carried.snapshot input) with
    | .error error => .error error
    | .ok decision =>
      match decideAll (carried.after decision) rest with
      | .error error => .error error
      | .ok (decisions, last) => .ok (decision :: decisions, last)

theorem decideAll_cons_ok (h : decideAll carried (input :: rest) = .ok (decisions, last)) :
    ∃ decision others, decide (carried.snapshot input) = .ok decision ∧
      decideAll (carried.after decision) rest = .ok (others, last) ∧
      decisions = decision :: others := by
  rw [decideAll] at h
  split at h
  · cases h
  · rename_i decision hdecision
    split at h
    · cases h
    · rename_i others final hrest
      cases h
      exact ⟨decision, others, hdecision, hrest, rfl⟩

theorem decideAll_cons (hdecision : decide (carried.snapshot input) = .ok decision)
    (hrest : decideAll (carried.after decision) rest = .ok (decisions, last)) :
    decideAll carried (input :: rest) = .ok (decision :: decisions, last) := by
  rw [decideAll, hdecision]
  dsimp only
  rw [hrest]

theorem decideAll_append (h : decideAll carried inputs = .ok (decisions, middle))
    (hmore : decideAll middle others = .ok (more, last)) :
    decideAll carried (inputs ++ others) = .ok (decisions ++ more, last) := by
  induction inputs generalizing carried decisions with
  | nil =>
    cases h
    exact hmore
  | cons input inputs ih =>
    obtain ⟨decision, rest, hdecision, hrest, rfl⟩ := decideAll_cons_ok h
    exact decideAll_cons hdecision (ih hrest)

theorem Committed.decideAll (h : Committed sha256 log) :
    Scheduler.decideAll .zero (log.map Record.input) =
      .ok (log.map Record.decision, ⟨latestCursor log, latestDeficit log⟩) := by
  induction h with
  | nil => rfl
  | @snoc log input record before entered ih =>
    rw [List.map_append, List.map_append]
    refine decideAll_append ih (decideAll_cons ?_ ?_)
    · have hsame : Carried.snapshot ⟨latestCursor log, latestDeficit log⟩ record.input =
          record.input := by
        unfold Carried.snapshot
        rw [← entered.input_cursor]
        have hqueues : (record.input.queues.map fun queue =>
            { queue with deficit := latestDeficit log queue.key }) = record.input.queues := by
          refine (List.map_congr_left fun queue hqueue => ?_).trans (List.map_id _)
          rw [← entered.input_deficits hqueue]
          rfl
        rw [hqueues]
      rw [hsame, entered.recordOf.canonical, decide_canonicalSnapshot]
      exact entered.decided
    · change Except.ok ([], Carried.after _ _) = Except.ok ([], _)
      unfold Carried.after
      rw [latestCursor_append]
      congr
      funext key
      rw [latestDeficit_append]

/-- The queue that a visit finds with a head too large for the slots that are
left. -/
def Round.short (round : Round) : Option (String × String) :=
  match round.queues[round.cursor]? with
  | some queue =>
    match queue.candidates with
    | head :: _ => if round.remaining < head.slotCost then some queue.key else none
    | [] => none
  | none => none

def Snapshot.passes (input : Snapshot) (key : String × String) : Nat :=
  input.visits.countP fun round => round.short = some key

def passes (key : String × String) : Carried → List Snapshot → Nat
  | _, [] => 0
  | carried, input :: rest =>
    (carried.snapshot input).passes key +
      match decide (carried.snapshot input) with
      | .ok decision => passes key (carried.after decision) rest
      | .error _ => 0

theorem passes_cons (key : String × String) (h : decide (carried.snapshot input) = .ok decision) :
    passes key carried (input :: rest) =
      (carried.snapshot input).passes key + passes key (carried.after decision) rest := by
  rw [passes, h]

theorem mem_start {carried : Carried} {input : Snapshot}
    (h : queue ∈ (carried.snapshot input).start.queues) :
    ∃ original ∈ input.queues, queue = { original with
      deficit := carried.deficits original.key
      candidates := sortCandidates original.candidates } := by
  obtain ⟨cloned, hcloned, rfl⟩ := mem_cloneAndSort.mp h
  obtain ⟨original, horiginal, rfl⟩ := List.mem_map.mp hcloned
  exact ⟨original, horiginal, rfl⟩

theorem mem_sortCandidates : candidate ∈ sortCandidates candidates ↔ candidate ∈ candidates :=
  List.mem_insertionSort _

theorem deficit?_buildDecision {sequence : Int}
    (h : (buildDecision sequence queues cursor grants).deficit? key = some deficit) :
    ∃ queue ∈ queues, queue.key = key ∧ queue.deficit = deficit := by
  obtain ⟨state, hstate, rfl⟩ := Option.map_eq_some_iff.mp h
  have hkey := List.find?_some hstate
  rw [decide_eq_true_eq] at hkey
  obtain ⟨queue, hqueue, rfl⟩ := List.mem_map.mp (List.mem_of_find?_eq_some hstate)
  exact ⟨queue, hqueue, hkey, rfl⟩

section Visit

variable {round next : Round}

/-- A queue that is visited while the batch has room and gets nothing is empty,
short of credit, or passed over. -/
theorem Visited.idle (h : Visited batchLimit round queue [] left next)
    (continues : round.continues batchLimit = true) :
    queue.candidates = [] ∨ ∃ head tail, queue.candidates = head :: tail ∧
      (queue.credit < head.slotCost ∨ round.short = some queue.key) := by
  have hroom : (round.grants.length : Int) < batchLimit := by
    simp only [Round.continues, Bool.and_eq_true, decide_eq_true_eq] at continues
    exact continues.1.1
  have hsplit : queue.candidates = left := h.split
  have hgrants : next.grants = round.grants := by simpa using h.grants
  have hremaining : next.remaining = round.remaining := by simpa using h.remaining
  rw [hsplit]
  rcases h.stopped with hempty | hfull | ⟨head, tail, hleft, hstop⟩
  · exact .inl hempty
  · rw [hgrants] at hfull
    omega
  · right
    refine ⟨head, tail, hleft, ?_⟩
    rw [cost_nil, sub_zero, hremaining] at hstop
    refine hstop.imp_right fun hless => ?_
    unfold Round.short
    rw [h.found]
    dsimp only
    rw [hsplit, hleft]
    exact if_pos hless

end Visit

end RailYard.Scheduler
