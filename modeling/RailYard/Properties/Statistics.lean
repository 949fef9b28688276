import RailYard.Evidence.Statistics
import Mathlib.Tactic.Linarith

/-! Nearest-rank percentiles are exact. -/
namespace RailYard.Properties
open Evidence

/-- At least so many percent of the samples are at most the duration. -/
def Covers (samples : List Int) (percentile duration : Int) : Prop :=
  percentile * samples.length ≤ 100 * (samples.countP (· ≤ duration) : Int)

section Sorted

variable {ordered : List Int} {index : Nat} (sorted : ordered.Pairwise (· ≤ ·))
  (h : ordered[index]? = some duration)
include sorted h

theorem lt_countP_of_getElem : index < ordered.countP (· ≤ duration) := by
  obtain ⟨hindex, rfl⟩ := List.getElem?_eq_some_iff.mp h
  have hall : ∀ value ∈ ordered.take (index + 1), decide (value ≤ ordered[index]) = true := by
    intro value hvalue
    obtain ⟨place, hplace, rfl⟩ := List.mem_take_iff_getElem.mp hvalue
    rw [decide_eq_true_eq]
    rcases Nat.lt_or_ge place index with hlt | hge
    · exact List.pairwise_iff_getElem.mp sorted place index _ hindex hlt
    · obtain rfl : place = index := by omega
      exact le_refl _
  have hcount : (ordered.take (index + 1)).countP (· ≤ ordered[index]) ≤ _ :=
    (List.take_sublist (index + 1) ordered).countP_le
  rw [List.countP_eq_length.mpr hall, List.length_take] at hcount
  omega

theorem countP_le_of_lt_getElem (hvalue : value < duration) :
    ordered.countP (· ≤ value) ≤ index := by
  obtain ⟨hindex, rfl⟩ := List.getElem?_eq_some_iff.mp h
  have hnone : (ordered.drop index).countP (· ≤ value) = 0 := by
    rw [List.countP_eq_zero]
    intro later hlater hle
    obtain ⟨place, hplace, rfl⟩ := List.mem_drop_iff_getElem.mp hlater
    rw [decide_eq_true_eq] at hle
    rcases Nat.eq_zero_or_pos place with rfl | hpos
    · simp only [Nat.add_zero] at hle
      omega
    · have hlater := List.pairwise_iff_getElem.mp sorted index (index + place) hindex
        (by omega) (by omega)
      omega
  calc ordered.countP (· ≤ value)
      = (ordered.take index ++ ordered.drop index).countP (· ≤ value) := by
        rw [List.take_append_drop]
    _ = (ordered.take index).countP (· ≤ value) := by
        rw [List.countP_append, hnone, Nat.add_zero]
    _ ≤ (ordered.take index).length := List.countP_le_length
    _ ≤ index := List.length_take_le index ordered

end Sorted

theorem nearestRank_isLeast (nonempty : samples ≠ []) (lower : 1 ≤ percentile)
    (upper : percentile ≤ 100) :
    ∃ duration, nearestRank samples percentile = .ok duration ∧
      IsLeast { value | value ∈ samples ∧ Covers samples percentile value } duration := by
  have hperm := List.perm_insertionSort (· ≤ ·) samples
  have hsorted := List.pairwise_insertionSort (· ≤ ·) samples
  unfold nearestRank
  rw [if_neg nonempty, if_neg (by omega)]
  dsimp only
  generalize samples.insertionSort (· ≤ ·) = ordered at hperm hsorted ⊢
  have hlength : (0 : Int) < samples.length := by
    have hpos := List.length_pos_iff.mpr nonempty
    omega
  have hbelow : (samples.length : Int) ≤ percentile * samples.length := by nlinarith
  have habove : percentile * samples.length ≤ 100 * (samples.length : Int) := by nlinarith
  rw [hperm.length_eq]
  generalize hindex : ((percentile * samples.length + 99) / 100 - 1).toNat = index
  -- The rank is the ceiling of the share, and the index is one less.
  have hshare : 100 * (index : Int) < percentile * samples.length ∧
      percentile * samples.length ≤ 100 * (index + 1) := by omega
  have hinside : index < ordered.length := by
    rw [hperm.length_eq]
    omega
  rw [List.getElem?_eq_getElem hinside]
  have hfound : ordered[index]? = some ordered[index] := List.getElem?_eq_getElem hinside
  refine ⟨ordered[index], rfl, ⟨hperm.mem_iff.mp (List.getElem_mem hinside), ?_⟩, ?_⟩
  · have hcount := lt_countP_of_getElem hsorted hfound
    rw [hperm.countP_eq] at hcount
    unfold Covers
    omega
  · rintro value ⟨_, hcovers⟩
    by_contra hlt
    have hcount := countP_le_of_lt_getElem hsorted hfound (not_le.mp hlt)
    rw [hperm.countP_eq] at hcount
    unfold Covers at hcovers
    omega

theorem nearest_rank_exact (samples : List Int) (percentile : Int) (nonempty : samples ≠ [])
    (lower : 1 ≤ percentile) (upper : percentile ≤ 100) :
    ∃ duration, nearestRank samples percentile = .ok duration ∧
      IsLeast { value | value ∈ samples ∧ Covers samples percentile value } duration ∧
      (∀ shuffled : List Int, shuffled.Perm samples →
        nearestRank shuffled percentile = .ok duration) ∧
      ∀ higher other, percentile ≤ higher → nearestRank samples higher = .ok other →
        duration ≤ other := by
  obtain ⟨duration, hrank, hleast⟩ := nearestRank_isLeast nonempty lower upper
  refine ⟨duration, hrank, hleast, ?_, ?_⟩
  · intro shuffled hperm
    have hnonempty : shuffled ≠ [] := by
      rintro rfl
      exact nonempty hperm.nil_eq.symm
    obtain ⟨found, hfound, hmin⟩ := nearestRank_isLeast hnonempty lower upper
    have hsame : { value | value ∈ shuffled ∧ Covers shuffled percentile value } =
        { value | value ∈ samples ∧ Covers samples percentile value } := by
      ext value
      simp only [Covers, Set.mem_ofPred_eq, hperm.mem_iff, hperm.length_eq, hperm.countP_eq]
    rw [hsame] at hmin
    rw [hfound, hmin.unique hleast]
  · intro higher other hle hother
    have hupper : higher ≤ 100 := by
      by_contra habove
      rw [nearestRank, if_neg nonempty, if_pos (by omega)] at hother
      cases hother
    obtain ⟨found, hfound, hmin⟩ := nearestRank_isLeast nonempty (by omega : 1 ≤ higher) hupper
    rw [hother] at hfound
    cases hfound
    refine hleast.2 ⟨hmin.1.1, le_trans ?_ hmin.1.2⟩
    nlinarith

theorem nearest_rank_exact_median : nearestRank [40, 10, 20, 30] 50 = .ok 20 ∧
      ∀ other, nearestRank [40, 10, 20, 30] 95 = .ok other → 20 ≤ other := by
  obtain ⟨duration, hrank, _, _, hmono⟩ :=
    nearest_rank_exact [40, 10, 20, 30] 50 (by decide) (by decide) (by decide)
  have hmedian : nearestRank [40, 10, 20, 30] 50 = .ok 20 := by decide +kernel
  rw [hmedian] at hrank
  cases hrank
  exact ⟨hmedian, fun other => hmono 95 other (by decide)⟩

end RailYard.Properties
