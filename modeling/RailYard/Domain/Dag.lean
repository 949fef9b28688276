import RailYard.Domain.Errors
import RailYard.Library.GreedyOrder
import Mathlib.Data.String.Basic

/-! The ordering of workflow nodes. A map from keys is a function beside the list
of the keys it has; strings are sorted as their bytes are, which for UTF-8 is the
order of the code points. -/
namespace RailYard.Domain

open RailYard.Library

namespace Dag

structure Node where
  key : String
  dependsOn : List String

structure Graph where
  indegree : String → Nat
  children : String → List String

def Graph.empty : Graph := ⟨fun _ => 0, fun _ => []⟩

def checkKeys (seen : List String) : List Node → Except Error (List String)
  | [] => .ok seen
  | node :: rest =>
    if node.key = "" then .error (.text "workflow node key is required")
    else if node.key ∈ seen then .error (.about "duplicate workflow node %q" [node.key])
    else checkKeys (seen ++ [node.key]) rest

/-- `indegree[node.Key]++` and `children[dependency] = append(…, node.Key)`. -/
def Graph.link (graph : Graph) (edge : String × String) : Graph where
  indegree := Function.update graph.indegree edge.1 (graph.indegree edge.1 + 1)
  children := Function.update graph.children edge.2 (graph.children edge.2 ++ [edge.1])

def linkNode (keys : List String) (key : String) (seen : List String) :
    List String → Graph → Except Error Graph
  | [], graph => .ok graph
  | dependency :: rest, graph =>
    if dependency ∉ keys then
      .error (.about "node %q depends on unknown node %q" [key, dependency])
    else if dependency ∈ seen then
      .error (.about "node %q repeats dependency %q" [key, dependency])
    else linkNode keys key (dependency :: seen) rest (graph.link (key, dependency))

def linkAll (keys : List String) : List Node → Graph → Except Error Graph
  | [], graph => .ok graph
  | node :: rest, graph => do
    let graph ← linkNode keys node.key [] node.dependsOn graph
    linkAll keys rest graph

def topologicalOrder (nodes : List Node) : Except Error (List String) :=
  if nodes.isEmpty then .error (.text "workflow requires at least one node")
  else do
    let keys ← checkKeys [] nodes
    let graph ← linkAll keys nodes .empty
    let ready := (keys.filter fun key => graph.indegree key = 0).insertionSort (· ≤ ·)
    let order := GreedyOrder.drain graph.children nodes.length ready graph.indegree []
    if order.length ≠ nodes.length then .error .cycleDetected else .ok order

def edges (nodes : List Node) : List (String × String) :=
  nodes.flatMap fun node => node.dependsOn.map (node.key, ·)

def parents (nodes : List Node) (key : String) : List String :=
  ((edges nodes).filter (·.1 = key)).map Prod.snd

structure WellFormed (nodes : List Node) : Prop where
  nonempty : nodes ≠ []
  keys : (nodes.map Node.key).Nodup
  named : ∀ node ∈ nodes, node.key ≠ ""
  distinct : ∀ node ∈ nodes, node.dependsOn.Nodup
  known : ∀ node ∈ nodes, ∀ key ∈ node.dependsOn, key ∈ nodes.map Node.key

theorem mem_edges : (child, parent) ∈ edges nodes ↔ parent ∈ parents nodes child := by
  simp [parents]

theorem mem_parents : parent ∈ parents nodes child ↔
    ∃ node ∈ nodes, node.key = child ∧ parent ∈ node.dependsOn := by
  rw [← mem_edges]
  simp [edges, and_comm]

theorem WellFormed.nodup_edges (h : WellFormed nodes) : (edges nodes).Nodup := by
  unfold edges
  rw [List.nodup_flatMap]
  refine ⟨fun node hnode => (h.distinct node hnode).map fun _ _ heq => (Prod.mk.inj heq).2, ?_⟩
  refine (List.pairwise_map.mp h.keys).imp fun hne => ?_
  intro edge hleft hright
  obtain ⟨_, _, rfl⟩ := List.mem_map.mp hleft
  obtain ⟨_, _, heq⟩ := List.mem_map.mp hright
  exact hne (Prod.mk.inj heq).1.symm

theorem WellFormed.nodup_parents (h : WellFormed nodes) (key : String) :
    (parents nodes key).Nodup := by
  refine List.Nodup.map_on ?_ (h.nodup_edges.filter _)
  intro left hleft right hright heq
  simp only [List.mem_filter, decide_eq_true_eq] at hleft hright
  exact Prod.ext (hleft.2.trans hright.2.symm) heq

theorem WellFormed.listed (h : WellFormed nodes) (hparent : parent ∈ parents nodes child) :
    child ∈ nodes.map Node.key ∧ parent ∈ nodes.map Node.key := by
  obtain ⟨node, hnode, rfl, hdepends⟩ := mem_parents.mp hparent
  exact ⟨List.mem_map_of_mem hnode, h.known node hnode parent hdepends⟩

theorem checkKeys_run (nodes : List Node) (seen : List String)
    (named : ∀ node ∈ nodes, node.key ≠ "") (nodup : (seen ++ nodes.map Node.key).Nodup) :
    checkKeys seen nodes = .ok (seen ++ nodes.map Node.key) := by
  induction nodes generalizing seen with
  | nil => simp [checkKeys]
  | cons node rest ih =>
    have hout : node.key ∉ seen := fun hin =>
      (List.nodup_append.mp nodup).2.2 _ hin _ (List.mem_cons_self ..) rfl
    rw [List.map_cons, List.append_cons] at nodup ⊢
    unfold checkKeys
    rw [if_neg (named node (List.mem_cons_self ..)), if_neg hout]
    exact ih _ (fun other hother => named other (List.mem_cons_of_mem _ hother)) nodup

theorem linkNode_run (keys : List String) (key : String) (dependencies seen : List String)
    (graph : Graph) (known : ∀ dependency ∈ dependencies, dependency ∈ keys)
    (nodup : dependencies.Nodup) (fresh : ∀ dependency ∈ dependencies, dependency ∉ seen) :
    linkNode keys key seen dependencies graph =
      .ok ((dependencies.map (key, ·)).foldl Graph.link graph) := by
  induction dependencies generalizing seen graph with
  | nil => rfl
  | cons head rest ih =>
    rw [List.nodup_cons] at nodup
    unfold linkNode
    rw [if_neg (not_not.mpr (known head (List.mem_cons_self ..))),
      if_neg (fresh head (List.mem_cons_self ..))]
    apply ih
    · exact fun other hother => known other (List.mem_cons_of_mem _ hother)
    · exact nodup.2
    · intro other hother hin
      rcases List.mem_cons.mp hin with rfl | hin
      · exact nodup.1 hother
      · exact fresh other (List.mem_cons_of_mem _ hother) hin

theorem linkAll_run (keys : List String) (nodes : List Node) (graph : Graph)
    (known : ∀ node ∈ nodes, ∀ key ∈ node.dependsOn, key ∈ keys)
    (distinct : ∀ node ∈ nodes, node.dependsOn.Nodup) :
    linkAll keys nodes graph = .ok ((edges nodes).foldl Graph.link graph) := by
  induction nodes generalizing graph with
  | nil => rfl
  | cons node rest ih =>
    unfold linkAll
    rw [linkNode_run keys node.key _ [] graph (known node (List.mem_cons_self ..))
      (distinct node (List.mem_cons_self ..)) (fun _ _ => List.not_mem_nil)]
    unfold edges
    rw [List.flatMap_cons, List.foldl_append]
    exact ih _ (fun other hother => known other (List.mem_cons_of_mem _ hother))
      fun other hother => distinct other (List.mem_cons_of_mem _ hother)

theorem foldl_link (links : List (String × String)) (graph : Graph) (key : String) :
    (links.foldl Graph.link graph).indegree key =
        graph.indegree key + links.countP (·.1 = key) ∧
      (links.foldl Graph.link graph).children key =
        graph.children key ++ (links.filter (·.2 = key)).map Prod.fst := by
  induction links generalizing graph with
  | nil => simp
  | cons edge rest ih =>
    obtain ⟨hdegree, hchildren⟩ := ih (graph.link edge)
    rw [List.foldl_cons, hdegree, hchildren]
    unfold Graph.link
    constructor
    · by_cases hkey : key = edge.1
      · subst hkey
        simp
        omega
      · simp [hkey, Ne.symm hkey]
    · by_cases hkey : key = edge.2
      · subst hkey
        simp
      · simp [hkey, Ne.symm hkey]

open Traversal GreedyOrder in
theorem topologicalOrder_run (h : WellFormed nodes) :
    ∃ order degree, Frontier (nodes.map Node.key) (parents nodes)
        (Least (nodes.map Node.key) (parents nodes)) order [] degree ∧
      topologicalOrder nodes =
        if order.length ≠ nodes.length then .error .cycleDetected else .ok order := by
  have hdegree : ∀ key, ((edges nodes).foldl Graph.link .empty).indegree key =
      waiting (parents nodes) [] key := by
    intro key
    rw [(foldl_link _ _ key).1]
    simp [Graph.empty, waiting, parents, List.countP_eq_length_filter]
  have hinit : Frontier (nodes.map Node.key) (parents nodes)
      (Least (nodes.map Node.key) (parents nodes)) []
      (((nodes.map Node.key).filter fun key =>
        ((edges nodes).foldl Graph.link .empty).indegree key = 0).insertionSort (· ≤ ·))
      ((edges nodes).foldl Graph.link .empty).indegree := by
    refine ⟨.nil, ?_, fun key => ?_, fun key _ => hdegree key⟩
    · rw [(List.perm_insertionSort ..).nodup_iff]
      exact h.keys.filter _
    · rw [List.mem_insertionSort, List.mem_filter, decide_eq_true_eq, hdegree, waiting_eq_zero]
      simp [Available]
  have hchildren : ∀ key, (((edges nodes).foldl Graph.link .empty).children key).Nodup ∧
      ∀ child, child ∈ ((edges nodes).foldl Graph.link .empty).children key ↔
        child ∈ nodes.map Node.key ∧ key ∈ parents nodes child := by
    intro key
    rw [(foldl_link _ _ key).2]
    constructor
    · refine List.Nodup.map_on ?_ (h.nodup_edges.filter _)
      intro left hleft right hright heq
      simp only [List.mem_filter, decide_eq_true_eq] at hleft hright
      exact Prod.ext heq (hleft.2.trans hright.2.symm)
    · intro child
      rw [and_iff_right_of_imp fun hparent => (h.listed hparent).1, ← mem_edges]
      simp [Graph.empty]
  obtain ⟨degree, hend⟩ := drain_spec h.nodup_parents hchildren nodes.length hinit
    (List.pairwise_insertionSort ..) (by simp)
  refine ⟨_, degree, hend, ?_⟩
  unfold topologicalOrder
  rw [if_neg (by simpa using h.nonempty), checkKeys_run nodes [] h.named (by simpa using h.keys)]
  change (linkAll _ nodes .empty >>= _) = _
  rw [List.nil_append, linkAll_run _ nodes .empty h.known h.distinct]
  rfl

end Dag

end RailYard.Domain
