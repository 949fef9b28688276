import RailYard.Library.Traversal

/-! Kahn's loop with a sorted queue. Every key that leaves the queue is the least
available one, and an order made that way is the least topological one. -/
namespace RailYard.Library.GreedyOrder

open Traversal

variable {κ : Type*} [LinearOrder κ]

/-- Take one parent off each child; a child without parents left joins the
sorted queue. -/
def release (indegree : κ → Nat) (ready : List κ) : List κ → (κ → Nat) × List κ
  | [] => (indegree, ready)
  | child :: rest =>
    let degree := indegree child - 1
    release (Function.update indegree child degree)
      (if degree = 0 then ready.orderedInsert (· ≤ ·) child else ready) rest

def drain (children : κ → List κ) : Nat → List κ → (κ → Nat) → List κ → List κ
  | 0, _, _, order => order
  | _ + 1, [], _, order => order
  | fuel + 1, key :: ready, indegree, order =>
    let released := release indegree ready ((children key).insertionSort (· ≤ ·))
    drain children fuel released.2 released.1 (order ++ [key])

def Least (keys : List κ) (parents : κ → List κ) (order : List κ) (key : κ) : Prop :=
  ∀ other, Available keys parents order other → key ≤ other

variable {keys : List κ} {parents : κ → List κ}

theorem le_of_least (nodup : keys.Nodup) (rest other front : List κ)
    (h : Taken keys parents (Least keys parents) (front ++ rest))
    (hother : Topological keys parents (front ++ other)) :
    rest = other ∨ List.Lex (· < ·) rest other := by
  induction rest generalizing front other with
  | nil =>
    cases other with
    | nil => exact .inl rfl
    | cons head other => exact .inr .nil
  | cons key rest ih =>
    obtain ⟨available, least⟩ := h.at front rest rfl
    cases other with
    | nil =>
      rw [List.append_nil] at hother
      exact (available.2.1 (hother.perm.mem_iff.mpr available.1)).elim
    | cons head other =>
      rcases (least head (hother.available nodup)).lt_or_eq with hlt | rfl
      · exact .inr (.rel hlt)
      · rcases ih other (front ++ [key]) (by simpa using h) (by simpa using hother) with rfl | hlt
        · exact .inl rfl
        · exact .inr (.cons hlt)

theorem release_spec (targets : List κ) (indegree : κ → Nat) (ready : List κ)
    (hnodup : targets.Nodup) :
    (∀ key, (release indegree ready targets).1 key =
        indegree key - if key ∈ targets then 1 else 0) ∧
      (release indegree ready targets).2.Perm
        (ready ++ targets.filter fun child => indegree child - 1 = 0) ∧
      (ready.Pairwise (· ≤ ·) → (release indegree ready targets).2.Pairwise (· ≤ ·)) := by
  induction targets generalizing indegree ready with
  | nil => simp [release]
  | cons head tail ih =>
    rw [List.nodup_cons] at hnodup
    unfold release
    obtain ⟨hdegree, hperm, hsorted⟩ := ih (Function.update indegree head (indegree head - 1))
      (if indegree head - 1 = 0 then ready.orderedInsert (· ≤ ·) head else ready) hnodup.2
    refine ⟨fun key => ?_, hperm.trans ?_, fun h => hsorted ?_⟩
    · rw [hdegree key]
      by_cases hkey : key = head
      · subst hkey
        simp [hnodup.1]
      · simp [hkey]
    · have hfilter : (tail.filter fun child =>
          Function.update indegree head (indegree head - 1) child - 1 = 0) =
          tail.filter fun child => indegree child - 1 = 0 := by
        apply List.filter_congr
        intro child hmem
        have hne : child ≠ head := fun heq => hnodup.1 (heq ▸ hmem)
        rw [Function.update_of_ne hne]
      rw [hfilter, List.filter_cons]
      by_cases hzero : indegree head - 1 = 0
      · simp only [hzero, if_true, decide_true]
        exact ((List.perm_orderedInsert ..).append_right _).trans List.perm_middle.symm
      · simp [hzero]
    · split
      · exact h.orderedInsert head ready
      · exact h

theorem least_head (h : Frontier keys parents rule order (key :: ready) indegree)
    (hsorted : (key :: ready).Pairwise (· ≤ ·)) : Least keys parents order key := by
  intro other hother
  rcases List.mem_cons.mp ((h.mem_ready other).mpr hother) with rfl | hin
  · exact le_rfl
  · exact (List.pairwise_cons.mp hsorted).1 other hin

theorem drain_spec {children : κ → List κ} (nodup : ∀ child, (parents child).Nodup)
    (hchildren : ∀ key, (children key).Nodup ∧
      ∀ child, child ∈ children key ↔ child ∈ keys ∧ key ∈ parents child)
    (fuel : Nat) (h : Frontier keys parents (Least keys parents) order ready indegree)
    (hsorted : ready.Pairwise (· ≤ ·)) (hfuel : keys.length ≤ order.length + fuel) :
    ∃ degree, Frontier keys parents (Least keys parents)
      (drain children fuel ready indegree order) [] degree := by
  induction fuel generalizing order ready indegree with
  | zero =>
    cases ready with
    | nil => exact ⟨indegree, h⟩
    | cons key ready =>
      have hless := h.length_lt (least_head h hsorted)
      omega
  | succ fuel ih =>
    cases ready with
    | nil => exact ⟨indegree, h⟩
    | cons key ready =>
      have hleast := least_head h hsorted
      have hperm := List.perm_insertionSort (· ≤ ·) (children key)
      obtain ⟨hdegree, hready, hsorted'⟩ := release_spec _ indegree ready
        (hperm.nodup_iff.mpr (hchildren key).1)
      refine ih (h.step nodup hleast hready ?_ ?_ ?_) (hsorted' (List.pairwise_cons.mp hsorted).2) ?_
      · exact (hperm.nodup_iff.mpr (hchildren key).1).filter _
      · intro child
        rw [List.mem_filter, hperm.mem_iff, (hchildren key).2, decide_eq_true_eq, and_assoc]
      · intro child hchild
        rw [hdegree child]
        simp only [hperm.mem_iff, (hchildren key).2, hchild, true_and]
      · rw [List.length_append, List.length_singleton]
        omega

end RailYard.Library.GreedyOrder
