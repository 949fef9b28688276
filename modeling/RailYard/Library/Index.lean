import RailYard.Library.Table
import RailYard.Library.Findings
import Mathlib.Data.List.Induction

/-! Rows under their keys, as a map that is filled row by row. -/
namespace RailYard.Library.Table

variable {κ ρ : Type} [DecidableEq κ]

def put (table : Table κ ρ) (key : κ) (row : ρ) : Table κ ρ :=
  (table.insert key row).modify key fun _ => row

theorem get?_put (table : Table κ ρ) (key : κ) (row : ρ) (key' : κ) :
    (table.put key row).get? key' = if key' = key then some row else table.get? key' := by
  unfold put
  rw [get?_modify, get?_insert, get?_insert, if_pos rfl]
  split <;> rfl

def index (key : ρ → κ) (rows : List ρ) : Table κ ρ :=
  rows.foldl (fun table row => table.put (key row) row) .empty

theorem index_append_singleton (key : ρ → κ) (rows : List ρ) (row : ρ) :
    index key (rows ++ [row]) = (index key rows).put (key row) row :=
  List.foldl_append ..

variable {key : ρ → κ} {rows : List ρ}

theorem mem_of_get?_index (h : (index key rows).get? value = some row) :
    row ∈ rows ∧ key row = value := by
  induction rows using List.reverseRecOn with
  | nil => cases h
  | append_singleton rows last ih =>
    rw [index_append_singleton, get?_put] at h
    split at h
    · rename_i heq
      rw [Option.some.injEq] at h
      rw [← h]
      exact ⟨List.mem_append_right _ (List.mem_singleton_self last), heq.symm⟩
    · obtain ⟨hmem, hkey⟩ := ih h
      exact ⟨List.mem_append_left _ hmem, hkey⟩

theorem isSome_index :
    ((index key rows).get? value).isSome = true ↔ ∃ row ∈ rows, key row = value := by
  constructor
  · intro h
    obtain ⟨row, hrow⟩ := Option.isSome_iff_exists.mp h
    exact ⟨row, mem_of_get?_index hrow⟩
  · induction rows using List.reverseRecOn with
    | nil => simp
    | append_singleton rows last ih =>
      rintro ⟨row, hmem, rfl⟩
      rw [index_append_singleton, get?_put]
      split
      · rfl
      · rename_i hne
        rcases List.mem_append.mp hmem with hmem | hmem
        · exact ih ⟨row, hmem, rfl⟩
        · exact (hne (congrArg key (List.mem_singleton.mp hmem))).elim

theorem get?_index (h : (rows.map key).Nodup) (hmem : row ∈ rows) :
    (index key rows).get? (key row) = some row := by
  have hsome : ((index key rows).get? (key row)).isSome = true := isSome_index.mpr ⟨row, hmem, rfl⟩
  obtain ⟨found, hfound⟩ := Option.isSome_iff_exists.mp hsome
  obtain ⟨hmem', hkey⟩ := mem_of_get?_index hfound
  rw [hfound, List.inj_on_of_nodup_map h hmem' hmem hkey]

theorem nodup_of_fresh (h : ∀ before row after, rows = before ++ row :: after →
    (index key before).get? (key row) = none) : (rows.map key).Nodup := by
  induction rows using List.reverseRecOn with
  | nil => exact List.nodup_nil
  | append_singleton rows last ih =>
    rw [List.map_append, List.map_singleton]
    have hrows := ih fun before row after heq =>
      h before row (after ++ [last]) (by rw [heq, List.append_assoc, List.cons_append])
    refine List.nodup_append.mpr ⟨hrows, List.nodup_singleton _, ?_⟩
    intro value hvalue other hother heq
    obtain ⟨row, hmem, rfl⟩ := List.mem_map.mp hvalue
    rw [List.mem_singleton.mp hother] at heq
    have hsome : ((index key rows).get? (key last)).isSome = true :=
      isSome_index.mpr ⟨row, hmem, heq⟩
    rw [h rows last [] rfl] at hsome
    cases hsome

theorem get?_index_eq_getLast? (key : ρ → κ) (rows : List ρ) (value : κ) :
    (index key rows).get? value = (rows.filter fun row => key row = value).getLast? := by
  induction rows using List.reverseRecOn with
  | nil => rfl
  | append_singleton rows last ih =>
    rw [index_append_singleton, get?_put, List.filter_append]
    split
    · rename_i heq
      simp [heq]
    · rename_i hne
      simp [ih, Ne.symm hne]

theorem keys_index_perm (h : (rows.map key).Nodup) : (index key rows).keys.Perm (rows.map key) := by
  refine (List.perm_ext_iff_of_nodup (index key rows).nodupKeys h).mpr fun value => ?_
  change value ∈ (index key rows).keys ↔ _
  rw [mem_keys_iff, ← Option.isSome_iff_exists, isSome_index, List.mem_map]

theorem covered_iff {σ : Type} {accepted : Table κ σ}
    (hrows : ∀ row ∈ rows, accepted.get? (key row) ≠ none)
    (hmissing : ∀ value ∈ accepted.keys, (index key rows).get? value ≠ none)
    (value : κ) : value ∈ rows.map key ↔ (accepted.get? value).isSome = true := by
  constructor
  · intro hmem
    obtain ⟨row, hrow, rfl⟩ := List.mem_map.mp hmem
    exact Option.isSome_iff_ne_none.mpr (hrows row hrow)
  · intro haccepted
    have hkey := (mem_keys_iff _ _).mpr (Option.isSome_iff_exists.mp haccepted)
    have hsome := Option.isSome_iff_ne_none.mpr (hmissing value hkey)
    obtain ⟨row, hrow, hid⟩ := isSome_index.mp hsome
    exact List.mem_map.mpr ⟨row, hrow, hid⟩

section Filling

variable {ν : Type} {body : Table κ ρ → ρ → Findings ν (Table κ ρ)}

theorem value_filling (h : ∀ table row, (body table row).value = table.put (key row) row)
    (rows : List ρ) : (rows.foldlM body .empty).value = index key rows := by
  rw [Findings.value_foldlM]
  exact congrArg (fun put => rows.foldl put .empty) (funext fun table => funext (h table))

theorem silent_filling (h : ∀ table row, (body table row).value = table.put (key row) row) :
    (rows.foldlM body .empty).Silent ↔ ∀ before row after, rows = before ++ row :: after →
      (body (index key before) row).Silent := by
  have hput : (fun table row => (body table row).value) = fun table row => table.put (key row) row :=
    funext fun table => funext (h table)
  rw [Findings.silent_foldlM, hput]
  rfl

end Filling

end RailYard.Library.Table
