import Mathlib.Data.List.Sort

/-! Sorting by a comparison that ranks. A comparison that says which of two
ranks is smaller sorts a sorted list into itself, and lists without ties into
one order, whatever order they came in. -/
namespace RailYard.Library

variable {α ι : Type} [LinearOrder ι] {rank : α → ι}

/-- `less` compares ranks. -/
def Ranks (less : α → α → Bool) (rank : α → ι) : Prop :=
  ∀ a b, less a b = true ↔ rank a < rank b

namespace Ranks

theorem le_iff (h : Ranks less rank) (a b : α) : less b a = false ↔ rank a ≤ rank b := by
  rw [← not_lt, ← h b a, Bool.not_eq_true]

theorem pairwise_sort (h : Ranks less rank) (items : List α) :
    (items.insertionSort fun a b => less b a = false).Pairwise fun a b => less b a = false := by
  have htotal : Std.Total fun a b => less b a = false :=
    ⟨fun a b => by simpa only [h.le_iff] using le_total (rank a) (rank b)⟩
  have htrans : IsTrans α fun a b => less b a = false :=
    ⟨fun a b c => by simpa only [h.le_iff] using fun hab hbc => le_trans hab hbc⟩
  exact List.pairwise_insertionSort _ items

theorem sort_sort (h : Ranks less rank) (items : List α) :
    ((items.insertionSort fun a b => less b a = false).insertionSort
      fun a b => less b a = false) = items.insertionSort fun a b => less b a = false :=
  (h.pairwise_sort items).insertionSort_eq

theorem sort_perm (h : Ranks less rank) {items items' : List α} (hperm : items.Perm items')
    (unique : ∀ a ∈ items, ∀ b ∈ items, rank a = rank b → a = b) :
    (items.insertionSort fun a b => less b a = false) =
      items'.insertionSort fun a b => less b a = false := by
  have hsorted := List.perm_insertionSort (fun a b => less b a = false)
  refine List.Perm.eq_of_pairwise ?_ (h.pairwise_sort items) (h.pairwise_sort items')
    ((hsorted items).trans (hperm.trans (hsorted items').symm))
  intro a b ha hb hab hba
  rw [List.mem_insertionSort] at ha hb
  exact unique a ha b (hperm.mem_iff.mpr hb)
    (le_antisymm ((h.le_iff a b).mp hab) ((h.le_iff b a).mp hba))

theorem filter_sort (h : Ranks less rank) {items : List α} (keep : α → Bool)
    (unique : ∀ a ∈ items, ∀ b ∈ items, rank a = rank b → a = b) :
    (items.insertionSort fun a b => less b a = false).filter keep =
      (items.filter keep).insertionSort fun a b => less b a = false := by
  have hsorted := List.perm_insertionSort (fun a b => less b a = false)
  refine List.Perm.eq_of_pairwise ?_ ((h.pairwise_sort items).filter _)
    (h.pairwise_sort (items.filter keep))
    (((hsorted items).filter keep).trans (hsorted (items.filter keep)).symm)
  intro a b ha hb hab hba
  rw [List.mem_filter, List.mem_insertionSort] at ha
  rw [List.mem_insertionSort, List.mem_filter] at hb
  exact unique a ha.1 b hb.1 (le_antisymm ((h.le_iff a b).mp hab) ((h.le_iff b a).mp hba))

end Ranks

section Segments

variable {items segment : List α}

theorem filter_isPrefix (closed : items.Pairwise fun a b => keep b = true → keep a = true) :
    items.filter keep <+: items := by
  induction items with
  | nil => exact List.prefix_refl []
  | cons a items ih =>
    rw [List.pairwise_cons] at closed
    cases ha : keep a with
    | true =>
      rw [List.filter_cons_of_pos ha]
      exact (List.prefix_cons_inj a).mpr (ih closed.2)
    | false =>
      have hnone : items.filter keep = [] := by
        rw [List.filter_eq_nil_iff]
        intro b hb hkeep
        rw [closed.1 b hb hkeep] at ha
        cases ha
      rw [List.filter_cons_of_neg (by simp [ha]), hnone]
      exact List.nil_prefix

/-- An initial segment of what is kept is one of the whole list exactly if nothing
that is left out stands before a member of it. -/
theorem prefix_iff_of_filter (nodup : items.Nodup) (h : segment <+: items.filter keep) :
    segment <+: items ↔ ∀ earlier item later, items = earlier ++ item :: later →
      item ∈ segment → ∀ other ∈ earlier, keep other = true := by
  constructor
  · rintro ⟨rest, rfl⟩ earlier item later hsplit hitem other hother
    -- Without repetitions the member stands inside the segment, and so does what is before it.
    have hinside : other ∈ segment := by
      rcases List.append_eq_append_iff.mp hsplit with ⟨more, rfl, hrest⟩ | ⟨more, rfl, _⟩
      · have hrepeated : item ∈ rest := by
          rw [hrest]
          simp
        exact ((List.nodup_append.mp nodup).2.2 item hitem item hrepeated rfl).elim
      · exact List.mem_append_left more hother
    exact (List.mem_filter.mp (h.subset hinside)).2
  · intro hkept
    induction items generalizing segment with
    | nil => exact h
    | cons a items ih =>
      cases segment with
      | nil => exact List.nil_prefix
      | cons b segment =>
        have hb : b ∈ (a :: items).filter keep := h.subset (List.mem_cons_self ..)
        have ha : keep a = true := by
          rcases List.mem_cons.mp (List.mem_filter.mp hb).1 with rfl | hmem
          · exact (List.mem_filter.mp hb).2
          · obtain ⟨earlier, later, rfl⟩ := List.append_of_mem hmem
            exact hkept (a :: earlier) b later rfl (List.mem_cons_self ..) a (List.mem_cons_self ..)
        rw [List.filter_cons_of_pos ha, List.cons_prefix_cons] at h
        obtain ⟨rfl, hrest⟩ := h
        rw [List.cons_prefix_cons]
        refine ⟨rfl, ih (List.nodup_cons.mp nodup).2 hrest ?_⟩
        intro earlier item later hsplit hitem other hother
        exact hkept (b :: earlier) item later (by rw [hsplit, List.cons_append])
          (List.mem_cons_of_mem b hitem) other (List.mem_cons_of_mem b hother)

end Segments

end RailYard.Library
