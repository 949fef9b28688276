import RailYard.Store.Submissions

/-! Validation of workflows: a workflow of well-formed nodes is rejected exactly if its
dependencies go round in a circle. -/
namespace RailYard.Properties
open Library Domain Store Relation

variable {options : Options} {tenantID : String} {nodes : List WorkflowNode}

/-- A node with the key `child` lists `parent` among its dependencies. -/
def Needs (nodes : List WorkflowNode) (parent child : String) : Prop :=
  ∃ node ∈ nodes, node.key = child ∧ parent ∈ node.job.dependsOn

def Cyclic (nodes : List WorkflowNode) : Prop := ∃ key, TransGen (Needs nodes) key key

def nodeSpec (tenantID : String) (node : WorkflowNode) : JobSpec :=
  ({ node.job with tenantID := tenantID } : JobSpec).normalize

structure NodesValid (options : Options) (tenantID : String) (nodes : List WorkflowNode) :
    Prop where
  distinct : (nodes.map WorkflowNode.key).Nodup
  named : ∀ node ∈ nodes, blank node.key = false
  valid : ∀ node ∈ nodes,
    (nodeSpec tenantID node).validate options.maxSlotCost options.allowShell = .ok ()
  unrepeated : ∀ node ∈ nodes, node.job.dependsOn.Nodup
  known : ∀ node ∈ nodes, ∀ parent ∈ node.job.dependsOn, parent ∈ nodes.map WorkflowNode.key

theorem checkKeys_run (named : ∀ node ∈ nodes, blank node.key = false)
    (distinct : (nodes.map WorkflowNode.key).Nodup) (fresh : ∀ node ∈ nodes, node.key ∉ seen) :
    checkKeys seen nodes = .ok () := by
  induction nodes generalizing seen with
  | nil => rfl
  | cons node rest ih =>
    rw [List.forall_mem_cons] at named fresh
    rw [List.map_cons, List.nodup_cons] at distinct
    unfold checkKeys
    rw [named.1, if_neg Bool.false_ne_true, if_neg fresh.1]
    refine ih named.2 distinct.2 fun other hother hmem => ?_
    rcases List.mem_cons.mp hmem with heq | hmem
    · exact distinct.1 (heq ▸ List.mem_map_of_mem hother)
    · exact fresh.2 other hother hmem

theorem findIdx?_idxOf {keys : List String} (h : key ∈ keys) :
    keys.findIdx? (· = key) = some (keys.idxOf key) := by
  induction keys with
  | nil => exact (List.not_mem_nil h).elim
  | cons first rest ih =>
    rw [List.findIdx?_cons, List.idxOf_cons]
    by_cases hfirst : first = key
    · simp [hfirst]
    · have hrest : key ∈ rest := (List.mem_cons.mp h).resolve_left (Ne.symm hfirst)
      have hbeq : (first == key) = false := beq_eq_false_iff_ne.mpr hfirst
      simp [hfirst, hbeq, ih hrest]

theorem resolveParents_run {keys : List String} (known : ∀ name ∈ names, name ∈ keys)
    (nodup : (seen ++ names.map keys.idxOf).Nodup) :
    resolveParents keys nodeKey seen names = .ok (seen ++ names.map keys.idxOf) := by
  induction names generalizing seen with
  | nil =>
    rw [List.map_nil, List.append_nil]
    rfl
  | cons name rest ih =>
    rw [List.forall_mem_cons] at known
    have hsplit : seen ++ (name :: rest).map keys.idxOf =
        (seen ++ [keys.idxOf name]) ++ rest.map keys.idxOf := by simp
    rw [hsplit] at nodup ⊢
    have hnew : keys.idxOf name ∉ seen := by
      intro hmem
      exact (List.nodup_append.mp (List.nodup_append.mp nodup).1).2.2 _ hmem _
        (List.mem_singleton_self _) rfl
    unfold resolveParents
    rw [findIdx?_idxOf known.1]
    dsimp only
    rw [if_neg hnew]
    exact ih known.2 nodup

/-- The indexes of a node's dependencies, in the order in which it lists them. -/
def parentIndexes (nodes : List WorkflowNode) (node : WorkflowNode) : List Nat :=
  node.job.dependsOn.map (nodes.map WorkflowNode.key).idxOf

theorem nodup_parentIndexes (h : NodesValid options tenantID nodes) (hnode : node ∈ nodes) :
    (parentIndexes nodes node).Nodup := by
  refine List.Nodup.map_on ?_ (h.unrepeated node hnode)
  intro a ha b _ heq
  exact List.idxOf_inj (h.known node hnode a ha) |>.mp heq

theorem resolveNode_run (h : NodesValid options tenantID nodes) (hnode : node ∈ nodes) :
    resolveNode options tenantID (nodes.map WorkflowNode.key) node =
      .ok (nodeSpec tenantID node, parentIndexes nodes node) := by
  have hparents : resolveParents (nodes.map WorkflowNode.key) node.key []
      (nodeSpec tenantID node).dependsOn = .ok (parentIndexes nodes node) :=
    resolveParents_run (h.known node hnode) (nodup_parentIndexes h hnode)
  have hvalid := h.valid node hnode
  unfold nodeSpec at hvalid hparents
  unfold resolveNode
  dsimp only
  rw [hvalid, hparents]
  rfl

theorem mapM_run {α β : Type} {f : α → Except Error β} {g : α → β} {items : List α}
    (h : ∀ item ∈ items, f item = .ok (g item)) : items.mapM' f = .ok (items.map g) := by
  induction items with
  | nil => rfl
  | cons item rest ih =>
    rw [List.forall_mem_cons] at h
    rw [List.mapM'_cons, h.1, ih h.2]
    rfl

theorem validateWorkflow_run (h : NodesValid options tenantID nodes) (nonempty : nodes ≠ []) :
    validateWorkflow options tenantID nodes =
      if Kahn.visited (nodes.map (parentIndexes nodes)) ≠ nodes.length then .error .cycleDetected
      else .ok (nodes.map fun node => (nodeSpec tenantID node, parentIndexes nodes node)) := by
  have hempty : ¬nodes.isEmpty = true := by simpa using nonempty
  have hkeys : checkKeys [] nodes = .ok () :=
    checkKeys_run h.named h.distinct fun _ _ hmem => List.not_mem_nil hmem
  have hresolved := mapM_run (fun node hnode => resolveNode_run h hnode)
  unfold validateWorkflow
  rw [if_neg hempty, hkeys, hresolved]
  change (if Kahn.visited ((nodes.map _).map Prod.snd) ≠ _ then _ else _) = _
  rw [List.map_map]
  rfl

theorem parents_eq (hnode : nodes[child]? = some node) :
    Kahn.parents (nodes.map (parentIndexes nodes)) child = parentIndexes nodes node := by
  unfold Kahn.parents
  rw [List.getD_eq_getElem?_getD, List.getElem?_map, hnode]
  rfl

section Cycles

variable (h : NodesValid options tenantID nodes)
include h

theorem idxOf_node (hnode : nodes[child]? = some node) :
    (nodes.map WorkflowNode.key).idxOf node.key = child := by
  have hkey : (nodes.map WorkflowNode.key)[child]? = some node.key := by
    rw [List.getElem?_map, hnode]
    rfl
  obtain ⟨hchild, hget⟩ := List.getElem?_eq_some_iff.mp hkey
  rw [← hget]
  exact h.distinct.idxOf_getElem child hchild

theorem edge_of_needs (hneeds : Needs nodes parent child) :
    Kahn.Edge (nodes.map (parentIndexes nodes)) ((nodes.map WorkflowNode.key).idxOf parent)
      ((nodes.map WorkflowNode.key).idxOf child) := by
  obtain ⟨node, hnode, rfl, hparent⟩ := hneeds
  obtain ⟨place, hplace⟩ := List.mem_iff_getElem?.mp hnode
  rw [idxOf_node h hplace]
  refine ⟨?_, ?_⟩
  · rw [List.length_map]
    exact (List.getElem?_eq_some_iff.mp hplace).1
  · rw [parents_eq hplace]
    exact List.mem_map_of_mem hparent

theorem needs_of_edge (hedge : Kahn.Edge (nodes.map (parentIndexes nodes)) parent child) :
    parent < nodes.length ∧
      Needs nodes ((nodes.map WorkflowNode.key).getD parent "")
        ((nodes.map WorkflowNode.key).getD child "") := by
  obtain ⟨hchild, hparent⟩ := hedge
  rw [List.length_map] at hchild
  have hnode : nodes[child]? = some nodes[child] := List.getElem?_eq_getElem hchild
  rw [parents_eq hnode] at hparent
  obtain ⟨key, hkey, rfl⟩ := List.mem_map.mp hparent
  have hknown := h.known _ (List.mem_of_getElem? hnode) key hkey
  have hless := List.idxOf_lt_length_iff.mpr hknown
  refine ⟨by rwa [List.length_map] at hless, nodes[child], List.mem_of_getElem? hnode, ?_, ?_⟩
  · simp [List.getD_eq_getElem?_getD, hchild]
  · rw [List.getD_eq_getElem?_getD, List.getElem?_eq_getElem hless, Option.getD_some,
      List.getElem_idxOf]
    exact hkey

theorem visited_iff :
    Kahn.visited (nodes.map (parentIndexes nodes)) = nodes.length ↔ ¬Cyclic nodes := by
  have hnodup : ∀ child, (Kahn.parents (nodes.map (parentIndexes nodes)) child).Nodup := by
    intro child
    cases hnode : nodes[child]? with
    | none =>
      unfold Kahn.parents
      rw [List.getD_eq_getElem?_getD, List.getElem?_map, hnode]
      exact List.nodup_nil
    | some node =>
      rw [parents_eq hnode]
      exact nodup_parentIndexes h (List.mem_of_getElem? hnode)
  have hiff := Kahn.visited_iff_acyclic hnodup fun parent child hedge => by
    rw [List.length_map]
    exact (needs_of_edge h hedge).1
  rw [List.length_map] at hiff
  rw [hiff]
  constructor
  · rintro hacyclic ⟨key, hcycle⟩
    exact hacyclic _ (hcycle.lift (nodes.map WorkflowNode.key).idxOf
      fun _ _ hneeds => edge_of_needs h hneeds)
  · intro hacyclic node hcycle
    exact hacyclic ⟨_, hcycle.lift (fun index => (nodes.map WorkflowNode.key).getD index "")
      fun _ _ hedge => (needs_of_edge h hedge).2⟩

end Cycles

/-- Nodes that are in order one by one are rejected exactly if they go round in a
circle, and otherwise every node comes back with the indexes of its dependencies. -/
theorem cycles_rejected (options : Options) (tenantID : String) (nodes : List WorkflowNode)
    (h : NodesValid options tenantID nodes) :
    (validateWorkflow options tenantID nodes = .error .cycleDetected ↔ Cyclic nodes) ∧
      (¬Cyclic nodes → ∀ (index : Nat) (node : WorkflowNode), nodes[index]? = some node →
        ∃ resolved, ∃ parents : List Nat, validateWorkflow options tenantID nodes = .ok resolved ∧
          resolved[index]? = some (nodeSpec tenantID node, parents) ∧
          parents.map (fun parent => nodes[parent]?.map WorkflowNode.key) =
            node.job.dependsOn.map some) := by
  by_cases hempty : nodes = []
  · subst hempty
    refine ⟨⟨(fun heq => by cases heq), ?_⟩, fun _ index node hnode => by cases hnode⟩
    rintro ⟨key, hcycle⟩
    cases hcycle with
    | single hneeds =>
      obtain ⟨_, hnode, _⟩ := hneeds
      exact (List.not_mem_nil hnode).elim
    | tail _ hneeds =>
      obtain ⟨_, hnode, _⟩ := hneeds
      exact (List.not_mem_nil hnode).elim
  rw [validateWorkflow_run h hempty]
  by_cases hcyclic : Cyclic nodes
  · have hvisited : Kahn.visited (nodes.map (parentIndexes nodes)) ≠ nodes.length := by
      rw [ne_eq, visited_iff h, not_not]
      exact hcyclic
    rw [if_pos hvisited]
    exact ⟨⟨fun _ => hcyclic, fun _ => rfl⟩, fun hno => (hno hcyclic).elim⟩
  · have hvisited := (visited_iff h).mpr hcyclic
    rw [if_neg (not_not.mpr hvisited)]
    refine ⟨⟨(fun heq => by cases heq), fun hyes => (hcyclic hyes).elim⟩, ?_⟩
    intro _ index node hnode
    refine ⟨_, parentIndexes nodes node, rfl, by rw [List.getElem?_map, hnode]; rfl, ?_⟩
    unfold parentIndexes
    rw [List.map_map]
    apply List.map_congr_left
    intro key hkey
    have hless := List.idxOf_lt_length_iff.mpr (h.known node (List.mem_of_getElem? hnode) key hkey)
    rw [Function.comp_apply, ← List.getElem?_map, List.getElem?_eq_getElem hless,
      List.getElem_idxOf]

def mutualNodes : List WorkflowNode :=
  [⟨"a", { payload := { type := .noop }, dependsOn := ["b"] }⟩,
    ⟨"b", { payload := { type := .noop }, dependsOn := ["a"] }⟩]

theorem cycles_rejected_mutual :
    validateWorkflow defaultOptions "default" mutualNodes = .error .cycleDetected := by
  refine (cycles_rejected defaultOptions "default" mutualNodes ?_).1.mpr ⟨"a", ?_⟩
  · exact ⟨by decide, by decide, by decide, by decide, by decide⟩
  · have hneeds : Needs mutualNodes "a" "b" := ⟨_, List.mem_cons_of_mem _ (.head _), rfl, .head _⟩
    have hneeds' : Needs mutualNodes "b" "a" := ⟨_, .head _, rfl, .head _⟩
    exact .tail (.single hneeds) hneeds'

end RailYard.Properties
