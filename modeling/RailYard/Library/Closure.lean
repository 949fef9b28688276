import Mathlib.Logic.Relation
import Mathlib.Data.List.Nodup
import Mathlib.Data.List.Lattice
import Mathlib.Logic.Function.Iterate

/-! Reachability over a finite list of edges, computed by saturation: every
round adds the targets of the edges that leave the set found so far. A round
that adds nothing ends the growth, so as many rounds as there are edges
suffice. -/
namespace RailYard.Library.Closure

variable {α : Type} [DecidableEq α]

/-- `(source, target)` pairs as a relation. -/
def Edge (edges : List (α × α)) (source target : α) : Prop := (source, target) ∈ edges

def successors (edges : List (α × α)) (found : List α) : List α :=
  (edges.filter fun edge => edge.1 ∈ found).map Prod.snd

def addAll (items found : List α) : List α := items.foldr List.insert found

def grow (edges : List (α × α)) (found : List α) : List α :=
  addAll (successors edges found) found

def closure (edges : List (α × α)) (seeds : List α) : List α :=
  (grow edges)^[edges.length] (addAll seeds [])

def descendants (edges : List (α × α)) (root : α) : List α :=
  closure edges (successors edges [root])

theorem mem_successors {edges : List (α × α)} {found : List α} :
    target ∈ successors edges found ↔ ∃ source ∈ found, Edge edges source target := by
  unfold successors Edge
  simp only [List.mem_map, List.mem_filter, decide_eq_true_eq, Prod.exists, exists_eq_right]
  constructor
  · rintro ⟨source, hedge, hfound⟩
    exact ⟨source, hfound, hedge⟩
  · rintro ⟨source, hfound, hedge⟩
    exact ⟨source, hedge, hfound⟩

theorem mem_addAll {found : List α} : item ∈ addAll items found ↔ item ∈ items ∨ item ∈ found := by
  unfold addAll
  induction items with
  | nil => simp
  | cons head tail ih => rw [List.foldr_cons, List.mem_insert_iff, ih, List.mem_cons, or_assoc]

theorem mem_grow {edges : List (α × α)} {found : List α} : target ∈ grow edges found ↔
      target ∈ found ∨ ∃ source ∈ found, Edge edges source target := by
  unfold grow
  rw [mem_addAll, mem_successors, or_comm]

theorem subset_grow (edges : List (α × α)) (found : List α) : found ⊆ grow edges found :=
  fun _ hmem => mem_grow.mpr (.inl hmem)

def Saturated (edges : List (α × α)) (found : List α) : Prop :=
  ∀ source ∈ found, ∀ target, Edge edges source target → target ∈ found

theorem mem_iterate_of_saturated {edges : List (α × α)} {found : List α} (rounds : Nat)
    (h : Saturated edges found) (hmem : target ∈ (grow edges)^[rounds] found) :
    target ∈ found := by
  induction rounds generalizing target with
  | zero => exact hmem
  | succ rounds ih =>
    rw [Function.iterate_succ_apply', mem_grow] at hmem
    rcases hmem with hmem | ⟨source, hsource, hedge⟩
    · exact ih hmem
    · exact h source (ih hsource) target hedge

theorem subset_iterate (edges : List (α × α)) (rounds : Nat) (found : List α) :
    found ⊆ (grow edges)^[rounds] found := by
  induction rounds with
  | zero => exact List.Subset.refl _
  | succ rounds ih =>
    rw [Function.iterate_succ_apply']
    exact List.Subset.trans ih (subset_grow edges _)

def missing (edges : List (α × α)) (found : List α) : List α :=
  (edges.map Prod.snd).filter fun target => target ∉ found

theorem missing_grow_lt {edges : List (α × α)} {found : List α} (h : ¬Saturated edges found) :
    (missing edges (grow edges found)).length < (missing edges found).length := by
  unfold Saturated at h
  push Not at h
  obtain ⟨source, hsource, target, hedge, hnew⟩ := h
  have hgrown : target ∈ grow edges found := mem_grow.mpr (.inr ⟨source, hsource, hedge⟩)
  have hmissing : target ∈ missing edges found := by
    unfold missing
    rw [List.mem_filter]
    exact ⟨List.mem_map.mpr ⟨(source, target), hedge, rfl⟩, by simpa using hnew⟩
  have hfilter : missing edges (grow edges found) =
      (missing edges found).filter fun item => item ∉ grow edges found := by
    unfold missing
    rw [List.filter_filter]
    apply List.filter_congr
    intro item _
    by_cases hitem : item ∈ grow edges found
    · simp [hitem]
    · have hout : item ∉ found := fun hin => hitem (subset_grow edges found hin)
      simp [hitem, hout]
  rw [hfilter]
  exact List.length_filter_lt_length_iff_exists.mpr ⟨target, hmissing, by simpa using hgrown⟩

theorem saturated_iterate {edges : List (α × α)} (rounds : Nat) {found : List α}
    (h : (missing edges found).length ≤ rounds) :
    Saturated edges ((grow edges)^[rounds] found) := by
  induction rounds generalizing found with
  | zero =>
    by_contra hnot
    have hlt := missing_grow_lt hnot
    rw [Function.iterate_zero_apply] at hlt
    omega
  | succ rounds ih =>
    by_cases hsaturated : Saturated edges found
    · intro source hsource target hedge
      have hinside := mem_iterate_of_saturated (rounds + 1) hsaturated hsource
      exact subset_iterate edges (rounds + 1) found (hsaturated source hinside target hedge)
    · rw [Function.iterate_succ_apply]
      have hlt := missing_grow_lt hsaturated
      exact ih (by omega)

theorem mem_iterate_sound {edges : List (α × α)} {found : List α} (rounds : Nat)
    (h : target ∈ (grow edges)^[rounds] found) :
    ∃ seed ∈ found, Relation.ReflTransGen (Edge edges) seed target := by
  induction rounds generalizing target with
  | zero => exact ⟨target, h, .refl⟩
  | succ rounds ih =>
    rw [Function.iterate_succ_apply', mem_grow] at h
    rcases h with hmem | ⟨source, hsource, hedge⟩
    · exact ih hmem
    · obtain ⟨seed, hseed, hpath⟩ := ih hsource
      exact ⟨seed, hseed, hpath.tail hedge⟩

theorem mem_closure {edges : List (α × α)} : target ∈ closure edges seeds ↔
      ∃ seed ∈ seeds, Relation.ReflTransGen (Edge edges) seed target := by
  unfold closure
  constructor
  · intro h
    obtain ⟨seed, hseed, hpath⟩ := mem_iterate_sound edges.length h
    exact ⟨seed, by simpa [mem_addAll] using hseed, hpath⟩
  · rintro ⟨seed, hseed, hpath⟩
    have hsaturated : Saturated edges ((grow edges)^[edges.length] (addAll seeds [])) := by
      apply saturated_iterate
      unfold missing
      have hlength := List.length_filter_le
        (fun target => decide (target ∉ addAll seeds [])) (edges.map Prod.snd)
      rwa [List.length_map] at hlength
    have hstart : seed ∈ (grow edges)^[edges.length] (addAll seeds []) :=
      subset_iterate edges edges.length _ (mem_addAll.mpr (.inl hseed))
    induction hpath with
    | refl => exact hstart
    | tail _ hedge ih => exact hsaturated _ ih _ hedge

theorem mem_descendants {edges : List (α × α)} :
    target ∈ descendants edges root ↔ Relation.TransGen (Edge edges) root target := by
  unfold descendants
  rw [mem_closure]
  constructor
  · rintro ⟨seed, hseed, hpath⟩
    obtain ⟨source, hsource, hedge⟩ := mem_successors.mp hseed
    obtain rfl : source = root := by simpa using hsource
    exact Relation.TransGen.head' hedge hpath
  · intro hpath
    obtain ⟨seed, hedge, hrest⟩ := Relation.TransGen.head'_iff.mp hpath
    exact ⟨seed, mem_successors.mpr ⟨root, by simp, hedge⟩, hrest⟩

end RailYard.Library.Closure
