import RailYard.Domain.Dag

/-! The order in which the nodes of a workflow are listed does not matter. -/
namespace RailYard.Properties

open RailYard.Library

namespace Dag

open RailYard.Domain.Dag Traversal GreedyOrder

structure Ordering (nodes : List Node) (order : List String) : Prop where
  perm : order.Perm (nodes.map Node.key)
  before : ∀ node ∈ nodes, ∀ key ∈ node.dependsOn, order.idxOf key < order.idxOf node.key

def Needs (nodes : List Node) (parent child : String) : Prop :=
  ∃ node ∈ nodes, node.key = child ∧ parent ∈ node.dependsOn

def Cyclic (nodes : List Node) : Prop := ∃ key, Relation.TransGen (Needs nodes) key key

/-- The least of the orderings; two lists of nodes that have the same orderings have
the same one. -/
def Least (nodes : List Node) (order : List String) : Prop :=
  Ordering nodes order ∧
    ∀ other, Ordering nodes other → order = other ∨ List.Lex (· < ·) order other

theorem ordering_iff : Ordering nodes order ↔
    Topological (nodes.map Node.key) (parents nodes) order := by
  constructor
  · rintro ⟨perm, before⟩
    refine ⟨perm, fun child parent hparent => ?_⟩
    obtain ⟨node, hnode, rfl, hdepends⟩ := mem_parents.mp hparent
    exact before node hnode parent hdepends
  · rintro ⟨perm, before⟩
    exact ⟨perm, fun node hnode key hkey =>
      before _ _ (mem_parents.mpr ⟨node, hnode, rfl, hkey⟩)⟩

theorem cyclic_iff : Cyclic nodes ↔ HasCycle (parents nodes) := by
  have heq : Needs nodes = fun parent child => parent ∈ parents nodes child := by
    funext parent child
    rw [mem_parents]
    rfl
  unfold Cyclic HasCycle
  rw [heq]

theorem Least.unique (h : Least nodes order) (h' : Least nodes order') : order = order' := by
  rcases h.2 order' h'.1 with heq | hless
  · exact heq
  · rcases h'.2 order h.1 with heq | hless'
    · exact heq.symm
    · exact (asymm (r := List.Lex (· < ·)) hless hless').elim

theorem topologicalOrder_cases (h : WellFormed nodes) :
    (Cyclic nodes ∧ topologicalOrder nodes = .error .cycleDetected) ∨
      (¬Cyclic nodes ∧ ∃ order, Least nodes order ∧ topologicalOrder nodes = .ok order) := by
  obtain ⟨order, degree, hend, hrun⟩ := topologicalOrder_run h
  have hcomplete := hend.complete_iff h.keys fun _ _ => h.listed
  rw [List.length_map, ← cyclic_iff] at hcomplete
  by_cases hlength : order.length = nodes.length
  · rw [if_neg (not_not.mpr hlength)] at hrun
    have hperm := hend.taken.subperm.perm_of_length_le (by rw [List.length_map, hlength])
    refine .inr ⟨hcomplete.mp hlength, order, ⟨ordering_iff.mpr ?_, fun other hother => ?_⟩, hrun⟩
    · exact hend.taken.topological hperm fun _ _ hparent => (h.listed hparent).1
    · exact le_of_least h.keys order other [] hend.taken (ordering_iff.mp hother)
  · rw [if_pos hlength] at hrun
    exact .inl ⟨not_not.mp (mt hcomplete.mpr hlength), hrun⟩

theorem WellFormed.perm (h : WellFormed nodes) (perm : nodes.Perm nodes') : WellFormed nodes' where
  nonempty hnil := h.nonempty (hnil ▸ perm).eq_nil
  keys := (perm.map Node.key).nodup_iff.mp h.keys
  named node hnode := h.named node (perm.mem_iff.mpr hnode)
  distinct node hnode := h.distinct node (perm.mem_iff.mpr hnode)
  known node hnode key hkey :=
    (perm.map Node.key).mem_iff.mp (h.known node (perm.mem_iff.mpr hnode) key hkey)

theorem needs_perm (perm : nodes.Perm nodes') : Needs nodes = Needs nodes' := by
  funext parent child
  simp only [Needs, perm.mem_iff]

theorem ordering_perm (perm : nodes.Perm nodes') (order : List String) :
    Ordering nodes order ↔ Ordering nodes' order := by
  constructor
  · rintro ⟨hperm, before⟩
    exact ⟨hperm.trans (perm.map Node.key), fun node hnode => before node (perm.mem_iff.mpr hnode)⟩
  · rintro ⟨hperm, before⟩
    exact ⟨hperm.trans (perm.map Node.key).symm,
      fun node hnode => before node (perm.mem_iff.mp hnode)⟩

/-- The function reports a cycle exactly if there is one and otherwise returns the
least ordering, whatever the order of the nodes it is given. -/
theorem topological_order_canonical (nodes : List Node) (h : WellFormed nodes) :
    (topologicalOrder nodes = .error .cycleDetected ↔ Cyclic nodes) ∧
      (¬Cyclic nodes → ∃ order, topologicalOrder nodes = .ok order ∧ Least nodes order) ∧
      ∀ nodes', nodes.Perm nodes' → topologicalOrder nodes' = topologicalOrder nodes := by
  refine ⟨?_, ?_, fun nodes' perm => ?_⟩
  · rcases topologicalOrder_cases h with ⟨hcyclic, hrun⟩ | ⟨hacyclic, order, _, hrun⟩
    · exact ⟨fun _ => hcyclic, fun _ => hrun⟩
    · rw [hrun]
      exact ⟨(fun heq => by cases heq), fun hcyclic => (hacyclic hcyclic).elim⟩
  · intro hacyclic
    rcases topologicalOrder_cases h with ⟨hcyclic, _⟩ | ⟨_, order, least, hrun⟩
    · exact (hacyclic hcyclic).elim
    · exact ⟨order, hrun, least⟩
  · have hsame : Cyclic nodes ↔ Cyclic nodes' := by
      unfold Cyclic
      rw [needs_perm perm]
    rcases topologicalOrder_cases h with ⟨hcyclic, hrun⟩ | ⟨hacyclic, order, least, hrun⟩
    · rcases topologicalOrder_cases (WellFormed.perm h perm) with ⟨_, hrun'⟩ | ⟨hacyclic, _⟩
      · rw [hrun, hrun']
      · exact (hacyclic (hsame.mp hcyclic)).elim
    · rcases topologicalOrder_cases (WellFormed.perm h perm)
        with ⟨hcyclic, _⟩ | ⟨_, order', least', hrun'⟩
      · exact (hacyclic (hsame.mpr hcyclic)).elim
      · have hleast : Least nodes order' := by
          unfold Least
          simp only [ordering_perm perm]
          exact least'
        rw [hrun, hrun', hleast.unique least]

/-- A diamond: two nodes may follow the first, and the last needs both. -/
def diamond : List Node := [⟨"d", ["b", "c"]⟩, ⟨"c", ["a"]⟩, ⟨"b", ["a"]⟩, ⟨"a", []⟩]

theorem topological_order_diamond : topologicalOrder diamond = .ok ["a", "b", "c", "d"] ∧
      topologicalOrder diamond.reverse = topologicalOrder diamond :=
  ⟨by decide +kernel, (topological_order_canonical diamond
    ⟨by decide, by decide, by decide, by decide, by decide⟩).2.2 _ (List.reverse_perm _).symm⟩

end Dag

end RailYard.Properties
