import Mathlib.Data.List.Nodup
import Mathlib.Algebra.Order.BigOperators.Group.List
import Mathlib.Tactic.Ring

/-! Primary-key tables. The key order is the order of insertion, no two rows
share a key, and updates never touch a key, so a row is addressed by its key
for as long as the table lives. -/
namespace RailYard.Library

structure Table (κ ρ : Type) where
  rows : List (κ × ρ)
  nodupKeys : (rows.map Prod.fst).Nodup

namespace Table

variable {κ ρ : Type}

def empty : Table κ ρ := ⟨[], List.nodup_nil⟩

def keys (table : Table κ ρ) : List κ := table.rows.map Prod.fst

variable [DecidableEq κ]

def get? (table : Table κ ρ) (key : κ) : Option ρ :=
  (table.rows.find? fun entry => entry.1 = key).map Prod.snd

def insert (table : Table κ ρ) (key : κ) (row : ρ) : Table κ ρ :=
  if h : key ∈ table.keys then table
  else ⟨table.rows ++ [(key, row)], by
    rw [List.map_append]
    refine List.nodup_append.mpr ⟨table.nodupKeys, List.nodup_singleton _, ?_⟩
    intro left hleft right hright heq
    obtain rfl : right = key := by simpa using hright
    exact h (heq ▸ hleft)⟩

def insertAll (table : Table κ ρ) (entries : List (κ × ρ)) : Table κ ρ :=
  entries.foldl (fun table entry => table.insert entry.1 entry.2) table

def modify (table : Table κ ρ) (key : κ) (change : ρ → ρ) : Table κ ρ :=
  ⟨table.rows.map fun entry => if entry.1 = key then (entry.1, change entry.2) else entry, by
    have hkeys : (table.rows.map fun entry =>
        if entry.1 = key then (entry.1, change entry.2) else entry).map Prod.fst =
        table.rows.map Prod.fst := by
      rw [List.map_map]
      apply List.map_congr_left
      intro entry _
      dsimp only [Function.comp_apply]
      split <;> rfl
    rw [hkeys]
    exact table.nodupKeys⟩

def sumBy (table : Table κ ρ) (weight : κ → ρ → Int) : Int :=
  (table.rows.map fun entry => weight entry.1 entry.2).sum

variable (table : Table κ ρ)

theorem mem_rows_iff (key : κ) (row : ρ) : (key, row) ∈ table.rows ↔ table.get? key = some row := by
  obtain ⟨rows, hnodup⟩ := table
  unfold get?
  dsimp only
  induction rows with
  | nil => simp
  | cons head tail ih =>
    rw [List.map_cons, List.nodup_cons] at hnodup
    obtain ⟨hfresh, htail⟩ := hnodup
    by_cases hkey : head.1 = key
    · have habsent : (key, row) ∉ tail := by
        intro hmem
        exact hfresh (List.mem_map.mpr ⟨(key, row), hmem, hkey.symm⟩)
      simp only [List.mem_cons, habsent, or_false, List.find?_cons, hkey, decide_true,
        Option.map_some, Option.some.injEq]
      constructor
      · intro heq
        rw [← heq]
      · intro heq
        rw [← heq, ← hkey]
    · have hne : (key, row) ≠ head := by
        intro heq
        exact hkey (by rw [← heq])
      simp only [List.mem_cons, hne, false_or, List.find?_cons, hkey, decide_false]
      exact ih htail

omit [DecidableEq κ] in
theorem nodupKeys_filter (keep : κ × ρ → Bool) : ((table.rows.filter keep).map Prod.fst).Nodup :=
  table.nodupKeys.sublist (List.filter_sublist.map Prod.fst)

theorem mem_keys_iff (key : κ) : key ∈ table.keys ↔ ∃ row, table.get? key = some row := by
  unfold keys
  constructor
  · intro hmem
    obtain ⟨⟨found, row⟩, hrow, rfl⟩ := List.mem_map.mp hmem
    exact ⟨row, (table.mem_rows_iff found row).mp hrow⟩
  · rintro ⟨row, hrow⟩
    exact List.mem_map.mpr ⟨(key, row), (table.mem_rows_iff key row).mpr hrow, rfl⟩

theorem not_mem_keys_iff (key : κ) : key ∉ table.keys ↔ table.get? key = none := by
  rw [mem_keys_iff, Option.eq_none_iff_forall_ne_some, not_exists]

theorem rows_of_key (key : κ) :
    (table.rows.filter fun entry => entry.1 = key).map Prod.snd = (table.get? key).toList := by
  obtain ⟨rows, hnodup⟩ := table
  unfold get?
  dsimp only
  induction rows with
  | nil => rfl
  | cons head tail ih =>
    rw [List.map_cons, List.nodup_cons] at hnodup
    obtain ⟨hfresh, htail⟩ := hnodup
    by_cases hkey : head.1 = key
    · have hnone : tail.filter (fun entry => entry.1 = key) = [] := by
        rw [List.filter_eq_nil_iff]
        intro entry hentry heq
        rw [decide_eq_true_eq] at heq
        exact hfresh (List.mem_map.mpr ⟨entry, hentry, heq.trans hkey.symm⟩)
      simp [hkey, hnone]
    · simp only [List.filter_cons, List.find?_cons, hkey, decide_false]
      exact ih htail

theorem get?_modify (key : κ) (change : ρ → ρ) (key' : κ) : (table.modify key change).get? key' =
      if key' = key then (table.get? key).map change else table.get? key' := by
  apply Option.ext
  intro row
  rw [← mem_rows_iff]
  unfold modify
  simp only [List.mem_map]
  constructor
  · rintro ⟨⟨found, old⟩, hmem, heq⟩
    rw [mem_rows_iff] at hmem
    by_cases hfound : found = key
    · subst hfound
      simp only [if_true, Prod.mk.injEq] at heq
      obtain ⟨rfl, rfl⟩ := heq
      simp [hmem]
    · simp only [hfound, if_false, Prod.mk.injEq] at heq
      obtain ⟨rfl, rfl⟩ := heq
      simp [hmem, hfound]
  · intro h
    by_cases hkey : key' = key
    · subst hkey
      simp only [if_true, Option.map_eq_some_iff] at h
      obtain ⟨old, hold, rfl⟩ := h
      exact ⟨(key', old), (table.mem_rows_iff key' old).mpr hold, by simp⟩
    · simp only [hkey, if_false] at h
      exact ⟨(key', row), (table.mem_rows_iff key' row).mpr h, by simp [hkey]⟩

@[simp] theorem get?_modify_self (key : κ) (change : ρ → ρ) :
    (table.modify key change).get? key = (table.get? key).map change := by
  rw [get?_modify, if_pos rfl]

theorem get?_modify_ne (change : ρ → ρ) (h : key' ≠ key) :
    (table.modify key change).get? key' = table.get? key' := by
  rw [get?_modify, if_neg h]

theorem insert_of_get? (fresh : ρ) (h : table.get? key = some row) :
    table.insert key fresh = table := by
  unfold insert
  rw [dif_pos ((table.mem_keys_iff key).mpr ⟨row, h⟩)]

theorem rows_insert (row : ρ) (h : table.get? key = none) :
    (table.insert key row).rows = table.rows ++ [(key, row)] := by
  unfold insert
  rw [dif_neg ((table.not_mem_keys_iff key).mpr h)]

theorem get?_insert (key : κ) (row : ρ) (key' : κ) : (table.insert key row).get? key' =
      if key' = key then some ((table.get? key).getD row) else table.get? key' := by
  cases hget : table.get? key with
  | some old =>
    rw [table.insert_of_get? row hget]
    by_cases hkey : key' = key
    · rw [if_pos hkey, hkey, hget, Option.getD_some]
    · rw [if_neg hkey]
  | none =>
    apply Option.ext
    intro found
    rw [← mem_rows_iff, table.rows_insert row hget, List.mem_append, mem_rows_iff]
    by_cases hkey : key' = key
    · subst hkey
      simp [hget, eq_comm]
    · simp [hkey]

theorem get?_insert_self (row : ρ) (h : table.get? key = none) :
    (table.insert key row).get? key = some row := by
  rw [get?_insert, if_pos rfl, h, Option.getD_none]

theorem get?_insert_ne (row : ρ) (h : key' ≠ key) :
    (table.insert key row).get? key' = table.get? key' := by
  rw [get?_insert, if_neg h]

theorem get?_insert_of_get? (key : κ) (row : ρ) (h : table.get? key' = some old)
    : (table.insert key row).get? key' = some old := by
  by_cases hkey : key' = key
  · rw [insert_of_get? table row (hkey ▸ h), h]
  · rw [get?_insert_ne table row hkey, h]

theorem mem_keys_insert (key : κ) (row : ρ) (key' : κ) :
    key' ∈ (table.insert key row).keys ↔ key' = key ∨ key' ∈ table.keys := by
  rw [mem_keys_iff, mem_keys_iff, get?_insert]
  by_cases hkey : key' = key
  · simp [hkey]
  · simp [hkey]

theorem mem_keys_insertAll (entries : List (κ × ρ)) (key : κ) :
    key ∈ (table.insertAll entries).keys ↔ key ∈ table.keys ∨ key ∈ entries.map Prod.fst := by
  induction entries generalizing table with
  | nil => simp [insertAll]
  | cons entry rest ih =>
    change key ∈ ((table.insert entry.1 entry.2).insertAll rest).keys ↔ _
    rw [ih, mem_keys_insert, List.map_cons, List.mem_cons]
    tauto

theorem get?_insertAll_of_mem (h : table.get? key = some row) :
    (table.insertAll entries).get? key = some row := by
  induction entries generalizing table with
  | nil => exact h
  | cons entry rest ih =>
    apply ih
    rw [get?_insert]
    by_cases hkey : key = entry.1
    · rw [if_pos hkey, ← hkey, h, Option.getD_some]
    · rw [if_neg hkey, h]

theorem get?_insertAll_of_notMem (h : key ∉ entries.map Prod.fst) :
    (table.insertAll entries).get? key = table.get? key := by
  induction entries generalizing table with
  | nil => rfl
  | cons entry rest ih =>
    rw [List.map_cons, List.mem_cons, not_or] at h
    change ((table.insert entry.1 entry.2).insertAll rest).get? key = _
    rw [ih _ h.2, get?_insert_ne _ _ h.1]

theorem get?_insertAll_new (hnodup : (entries.map Prod.fst).Nodup)
    (hmem : (key, row) ∈ entries) (hnew : table.get? key = none) :
    (table.insertAll entries).get? key = some row := by
  induction entries generalizing table with
  | nil => cases hmem
  | cons entry rest ih =>
    rw [List.map_cons, List.nodup_cons] at hnodup
    change ((table.insert entry.1 entry.2).insertAll rest).get? key = _
    rcases List.mem_cons.mp hmem with heq | hrest
    · rw [← heq]
      exact get?_insertAll_of_mem _ (table.get?_insert_self row hnew)
    · have hne : key ≠ entry.1 := by
        intro heq
        exact hnodup.1 (heq ▸ List.mem_map.mpr ⟨(key, row), hrest, rfl⟩)
      apply ih _ hnodup.2 hrest
      rw [get?_insert_ne _ _ hne, hnew]

theorem modify_congr (hrow : table.get? key = some row) (h : change row = change' row) :
    table.modify key change = table.modify key change' := by
  unfold modify
  congr 1
  apply List.map_congr_left
  intro entry hentry
  by_cases hkey : entry.1 = key
  · have hfound := (table.mem_rows_iff entry.1 entry.2).mp hentry
    rw [hkey, hrow, Option.some.injEq] at hfound
    rw [if_pos hkey, if_pos hkey, ← hfound, h]
  · rw [if_neg hkey, if_neg hkey]

theorem modify_of_absent (change : ρ → ρ) (h : table.get? key = none) :
    table.modify key change = table := by
  have hrows : (table.modify key change).rows = table.rows := by
    unfold modify
    dsimp only
    conv_rhs => rw [← List.map_id table.rows]
    apply List.map_congr_left
    intro entry hentry
    have hne : entry.1 ≠ key := by
      intro heq
      have hfound := (table.mem_rows_iff entry.1 entry.2).mp hentry
      rw [heq, h] at hfound
      cases hfound
    rw [if_neg hne, id]
  cases hmodified : table.modify key change with
  | mk rows hnodup =>
    rw [hmodified] at hrows
    subst hrows
    rfl

theorem modify_self (h : ∀ row, table.get? key = some row → change row = row) :
    table.modify key change = table := by
  cases hget : table.get? key with
  | none => exact table.modify_of_absent change hget
  | some row =>
    have hid : change row = id row := h row hget
    rw [table.modify_congr hget hid]
    obtain ⟨rows, hnodup⟩ := table
    unfold modify
    congr 1
    conv_rhs => rw [← List.map_id rows]
    apply List.map_congr_left
    intro entry _
    by_cases hkey : entry.1 = key
    · rw [if_pos hkey]
      rfl
    · rw [if_neg hkey]
      rfl

theorem sumBy_eq_zero (h : ∀ key row, table.get? key = some row → weight key row = 0) :
    table.sumBy weight = 0 := by
  unfold sumBy
  apply List.sum_eq_zero
  intro value hvalue
  obtain ⟨entry, hentry, rfl⟩ := List.mem_map.mp hvalue
  exact h entry.1 entry.2 ((table.mem_rows_iff entry.1 entry.2).mp hentry)

theorem le_sumBy (h : ∀ key row, table.get? key = some row → 0 ≤ weight key row)
    (hrow : table.get? key = some row) : weight key row ≤ table.sumBy weight := by
  have hmem := (table.mem_rows_iff key row).mpr hrow
  apply List.single_le_sum
  · intro value hvalue
    obtain ⟨entry, hentry, rfl⟩ := List.mem_map.mp hvalue
    exact h entry.1 entry.2 ((table.mem_rows_iff entry.1 entry.2).mp hentry)
  · exact List.mem_map.mpr ⟨(key, row), hmem, rfl⟩

omit [DecidableEq κ] in
theorem sumBy_ite (condition : ρ → Bool) (weight : ρ → Int) :
    table.sumBy (fun _ row => if condition row then weight row else 0) =
      (((table.rows.map Prod.snd).filter condition).map weight).sum := by
  unfold sumBy
  induction table.rows with
  | nil => rfl
  | cons entry rest ih =>
    rw [List.map_cons, List.sum_cons, ih, List.map_cons, List.filter_cons]
    cases h : condition entry.2 <;> simp [h]

theorem sumBy_insert (row : ρ) (weight : κ → ρ → Int) (h : table.get? key = none) :
    (table.insert key row).sumBy weight = table.sumBy weight + weight key row := by
  unfold sumBy
  rw [table.rows_insert row h, List.map_append, List.sum_append]
  simp

theorem sumBy_insertAll_zero (h : ∀ entry ∈ entries, weight entry.1 entry.2 = 0) :
    (table.insertAll entries).sumBy weight = table.sumBy weight := by
  induction entries generalizing table with
  | nil => rfl
  | cons entry rest ih =>
    change ((table.insert entry.1 entry.2).insertAll rest).sumBy weight = _
    rw [ih _ fun item hitem => h item (List.mem_cons_of_mem _ hitem)]
    cases hget : table.get? entry.1 with
    | none => rw [table.sumBy_insert _ weight hget, h entry (List.mem_cons_self ..), add_zero]
    | some row => rw [table.insert_of_get? _ hget]

theorem sumBy_insertAll_le (h : ∀ entry ∈ entries, weight entry.1 entry.2 ≤ 1) :
    (table.insertAll entries).sumBy weight ≤ table.sumBy weight + entries.length := by
  induction entries generalizing table with
  | nil => simp [insertAll]
  | cons entry rest ih =>
    rw [List.forall_mem_cons] at h
    have hrest := ih (table.insert entry.1 entry.2) h.2
    have hfirst : (table.insert entry.1 entry.2).sumBy weight ≤ table.sumBy weight + 1 := by
      cases hget : table.get? entry.1 with
      | none =>
        rw [table.sumBy_insert _ weight hget]
        have hweight := h.1
        omega
      | some row =>
        rw [table.insert_of_get? _ hget]
        omega
    change ((table.insert entry.1 entry.2).insertAll rest).sumBy weight ≤ _
    rw [List.length_cons]
    omega

theorem sumBy_le (h : ∀ key row, table.get? key = some row → weight' key row ≤ weight key row) :
    table.sumBy weight' ≤ table.sumBy weight := by
  unfold sumBy
  refine List.sum_le_sum fun entry hentry => ?_
  exact h entry.1 entry.2 ((table.mem_rows_iff entry.1 entry.2).mp hentry)

theorem sumBy_split (weight : κ → ρ → Int) (h : table.get? key = some row) : table.sumBy weight =
      weight key row + table.sumBy fun other row => if other = key then 0 else weight other row := by
  have hmem := (table.mem_rows_iff key row).mpr h
  obtain ⟨rows, hnodup⟩ := table
  unfold sumBy
  dsimp only at hmem ⊢
  clear h
  induction rows with
  | nil => cases hmem
  | cons head tail ih =>
    rw [List.map_cons, List.nodup_cons] at hnodup
    obtain ⟨hfresh, htail⟩ := hnodup
    simp only [List.map_cons, List.sum_cons]
    rcases List.mem_cons.mp hmem with rfl | hrest
    · have hsame : (tail.map fun entry => if entry.1 = key then 0 else weight entry.1 entry.2) =
          tail.map fun entry => weight entry.1 entry.2 := by
        apply List.map_congr_left
        intro entry hentry
        have hne : entry.1 ≠ key := by
          intro heq
          exact hfresh (List.mem_map.mpr ⟨entry, hentry, heq⟩)
        rw [if_neg hne]
      rw [hsame, if_pos rfl, zero_add]
    · have hne : head.1 ≠ key := by
        intro heq
        exact hfresh (List.mem_map.mpr ⟨(key, row), hrest, heq.symm⟩)
      rw [if_neg hne, ih htail hrest]
      ring

theorem sumBy_modify_of_same (change : ρ → ρ) (h : table.get? key = some row)
    (same : ∀ other found, other ≠ key → weight' other found = weight other found) :
    (table.modify key change).sumBy weight' =
      table.sumBy weight - weight key row + weight' key (change row) := by
  have hchanged : (table.modify key change).get? key = some (change row) := by
    rw [get?_modify_self, h, Option.map_some]
  have hothers : ((table.modify key change).sumBy fun other row =>
      if other = key then 0 else weight' other row) =
      table.sumBy fun other row => if other = key then 0 else weight other row := by
    unfold sumBy modify
    dsimp only
    rw [List.map_map]
    refine congrArg List.sum (List.map_congr_left fun entry _ => ?_)
    dsimp only [Function.comp_apply]
    by_cases hkey : entry.1 = key
    · rw [if_pos hkey, if_pos hkey, if_pos hkey]
    · rw [if_neg hkey, if_neg hkey, if_neg hkey, same entry.1 entry.2 hkey]
  rw [sumBy_split _ weight' hchanged, hothers, sumBy_split table weight h]
  ring

theorem sumBy_modify (change : ρ → ρ) (weight : κ → ρ → Int) (h : table.get? key = some row) :
    (table.modify key change).sumBy weight =
      table.sumBy weight - weight key row + weight key (change row) :=
  table.sumBy_modify_of_same change h fun _ _ _ => rfl

end Table

end RailYard.Library
