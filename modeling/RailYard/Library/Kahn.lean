import RailYard.Library.Traversal

/-! Kahn's check on nodes `0 .. n - 1` with a list of parents for each. A node
enters the queue when its last parent leaves it, so the nodes leave the queue
in a topological order, and all of them leave exactly when there is one. -/
namespace RailYard.Library.Kahn

variable (dependencies : List (List Nat))

def parents (child : Nat) : List Nat := dependencies.getD child []

def children (node : Nat) : List Nat :=
  (List.range dependencies.length).filter fun child => node ∈ parents dependencies child

def release : List Nat → List Nat → List Nat → List Nat × List Nat
  | indegree, queue, [] => (indegree, queue)
  | indegree, queue, child :: rest =>
    let degree := indegree.getD child 0 - 1
    release (indegree.set child degree) (if degree = 0 then queue ++ [child] else queue) rest

/-- The main loop on a bounded number of turns, counting the nodes that leave
the queue. -/
def drain : Nat → List Nat → List Nat → Nat → Nat
  | 0, _, _, visited => visited
  | _ + 1, [], _, visited => visited
  | fuel + 1, node :: queue, indegree, visited =>
    let released := release indegree queue (children dependencies node)
    drain fuel released.2 released.1 (visited + 1)

def indegrees : List Nat := dependencies.map List.length

def roots : List Nat :=
  (List.range dependencies.length).filter fun node => (indegrees dependencies).getD node 0 = 0

def visited : Nat :=
  drain dependencies dependencies.length (roots dependencies) (indegrees dependencies) 0

variable {dependencies}

theorem mem_children : child ∈ children dependencies node ↔
      child < dependencies.length ∧ node ∈ parents dependencies child := by
  unfold children
  simp

theorem nodup_children (node : Nat) : (children dependencies node).Nodup :=
  List.Nodup.filter _ List.nodup_range

theorem getD_set (indegree : List Nat) (child node value : Nat) (h : child < indegree.length) :
    (indegree.set child value).getD node 0 =
      if node = child then value else indegree.getD node 0 := by
  by_cases hnode : node = child
  · subst hnode
    simp [List.getD_eq_getElem?_getD, h]
  · simp [List.getD_eq_getElem?_getD, hnode, List.getElem?_set_ne (Ne.symm hnode)]

theorem release_eq (targets : List Nat) (indegree queue : List Nat) (hnodup : targets.Nodup)
    (hbound : ∀ target ∈ targets, target < indegree.length) :
    (release indegree queue targets).1.length = indegree.length ∧
      (∀ node, (release indegree queue targets).1.getD node 0 =
        if node ∈ targets then indegree.getD node 0 - 1 else indegree.getD node 0) ∧
      (release indegree queue targets).2 =
        queue ++ targets.filter fun target => indegree.getD target 0 - 1 = 0 := by
  induction targets generalizing indegree queue with
  | nil => simp [release]
  | cons head tail ih =>
    rw [List.nodup_cons] at hnodup
    have hhead : head < indegree.length := hbound head (List.mem_cons_self ..)
    have htail : ∀ target ∈ tail,
        target < (indegree.set head (indegree.getD head 0 - 1)).length := by
      intro target hmem
      rw [List.length_set]
      exact hbound target (List.mem_cons_of_mem _ hmem)
    obtain ⟨hlength, hdegree, hqueue⟩ := ih (indegree.set head (indegree.getD head 0 - 1))
      (if indegree.getD head 0 - 1 = 0 then queue ++ [head] else queue) hnodup.2 htail
    rw [List.length_set] at hlength
    unfold release
    refine ⟨hlength, ?_, ?_⟩
    · intro node
      rw [hdegree node, getD_set indegree head node _ hhead]
      by_cases hnode : node = head
      · subst hnode
        simp [hnodup.1]
      · simp [hnode]
    · have hfilter : (tail.filter fun target =>
          (indegree.set head (indegree.getD head 0 - 1)).getD target 0 - 1 = 0) =
          tail.filter fun target => indegree.getD target 0 - 1 = 0 := by
        apply List.filter_congr
        intro target hmem
        have hne : target ≠ head := fun heq => hnodup.1 (heq ▸ hmem)
        rw [getD_set indegree head target _ hhead, if_neg hne]
      rw [hqueue, hfilter, List.filter_cons]
      by_cases hzero : indegree.getD head 0 - 1 = 0
      · simp only [hzero, if_true, decide_true, List.append_assoc, List.singleton_append]
      · simp only [hzero, if_false, decide_false, Bool.false_eq_true]

open Traversal in
theorem drain_spec (fuel : Nat) (hnodup : ∀ child, (parents dependencies child).Nodup)
    (hlength : indegree.length = dependencies.length)
    (h : Frontier (List.range dependencies.length) (parents dependencies) (fun _ _ => True) order
      queue (indegree.getD · 0))
    (hfuel : dependencies.length ≤ order.length + fuel) :
    ∃ order' degree', Frontier (List.range dependencies.length) (parents dependencies)
        (fun _ _ => True) order' [] degree' ∧
      drain dependencies fuel queue indegree order.length = order'.length := by
  induction fuel generalizing order queue indegree with
  | zero =>
    cases queue with
    | nil => exact ⟨order, _, h, rfl⟩
    | cons node queue =>
      have hlt := h.length_lt trivial
      rw [List.length_range] at hlt
      omega
  | succ fuel ih =>
    cases queue with
    | nil => exact ⟨order, _, h, rfl⟩
    | cons node queue =>
      obtain ⟨hsame, hdegree, hqueue⟩ := release_eq (children dependencies node) indegree queue
        (nodup_children node) fun target hmem => by rw [hlength]; exact (mem_children.mp hmem).1
      have hstep : Frontier (List.range dependencies.length) (parents dependencies)
          (fun _ _ => True) (order ++ [node])
          (release indegree queue (children dependencies node)).2
          ((release indegree queue (children dependencies node)).1.getD · 0) := by
        refine h.step hnodup trivial (.of_eq hqueue) ((nodup_children node).filter _) ?_ ?_
        · intro child
          rw [List.mem_filter, mem_children, decide_eq_true_eq, List.mem_range, and_assoc]
        · intro child hchild
          have hless := List.mem_range.mp hchild
          simp only [hdegree child, mem_children, hless, true_and]
          split <;> rfl
      have hcount : (order ++ [node]).length = order.length + 1 := by simp
      obtain ⟨order', degree', hend, hrun⟩ := ih (hsame.trans hlength) hstep (by omega)
      refine ⟨order', degree', hend, ?_⟩
      rw [← hrun, hcount]
      rfl

open Traversal in
theorem visited_spec (hnodup : ∀ child, (parents dependencies child).Nodup) :
    ∃ order degree, Frontier (List.range dependencies.length) (parents dependencies)
        (fun _ _ => True) order [] degree ∧ visited dependencies = order.length := by
  have hdegree : ∀ node, (indegrees dependencies).getD node 0 =
      waiting (parents dependencies) [] node := by
    intro node
    unfold indegrees waiting parents
    cases hnode : dependencies[node]? <;> simp [List.getD_eq_getElem?_getD, hnode]
  have hinit : Frontier (List.range dependencies.length) (parents dependencies) (fun _ _ => True)
      [] (roots dependencies) ((indegrees dependencies).getD · 0) := by
    refine ⟨.nil, List.Nodup.filter _ List.nodup_range, fun node => ?_, fun node _ => hdegree node⟩
    unfold roots Available
    rw [List.mem_filter, decide_eq_true_eq, hdegree, waiting_eq_zero]
    simp
  exact drain_spec dependencies.length hnodup (by simp [indegrees]) hinit (by simp)

theorem mem_range_of_parent (h : parent ∈ parents dependencies child) :
    child ∈ List.range dependencies.length := by
  rw [List.mem_range]
  by_contra hout
  simp [parents, List.getD_eq_getElem?_getD, List.getElem?_eq_none (Nat.le_of_not_lt hout)] at h

/-- When the check visits every node, ranking the nodes by their place in the
queue's order puts every parent strictly below its child. -/
theorem exists_rank_of_visited (hnodup : ∀ child, (parents dependencies child).Nodup)
    (h : visited dependencies = dependencies.length) :
    ∃ rank : Nat → Nat, ∀ child < dependencies.length,
      ∀ parent ∈ parents dependencies child, rank parent < rank child := by
  obtain ⟨order, degree, hend, hcount⟩ := visited_spec hnodup
  have hperm := hend.taken.subperm.perm_of_length_le (by rw [List.length_range]; omega)
  have horder := hend.taken.topological hperm fun _ _ hparent => mem_range_of_parent hparent
  exact ⟨order.idxOf, fun child _ parent hparent => horder.before child parent hparent⟩

/-- `parent` is listed as a parent of the node `child`. -/
def Edge (dependencies : List (List Nat)) (parent child : Nat) : Prop :=
  child < dependencies.length ∧ parent ∈ parents dependencies child

theorem visited_iff_acyclic (hnodup : ∀ child, (parents dependencies child).Nodup)
    (bound : ∀ parent child, Edge dependencies parent child → parent < dependencies.length) :
    visited dependencies = dependencies.length ↔
      ∀ node, ¬Relation.TransGen (Edge dependencies) node node := by
  have hedge : Edge dependencies = fun parent child => parent ∈ parents dependencies child := by
    funext parent child
    exact propext (and_iff_right_of_imp fun h => List.mem_range.mp (mem_range_of_parent h))
  obtain ⟨order, degree, hend, hcount⟩ := visited_spec hnodup
  have hiff := hend.complete_iff List.nodup_range fun child parent hparent =>
    ⟨mem_range_of_parent hparent, List.mem_range.mpr (bound parent child (hedge ▸ hparent))⟩
  rw [List.length_range, ← hcount] at hiff
  rw [hiff, hedge]
  exact not_exists

end RailYard.Library.Kahn
