import RailYard.Lifecycle.Yard

/-! What no change undoes. A job keeps its identity and its edges, its version
only grows, a row that keeps its version keeps everything, and a terminal row
is final together with its place in the ledger. -/
namespace RailYard.Lifecycle
open Library Domain Store Relation

theorem deadLetter_terminal {state : JobState} (h : state = .deadLetter) :
    state.terminal = true := by
  rw [h]
  rfl

namespace Move

variable {move : Move}

theorem get?_apply_self (valid : move.Valid policy yard) :
    (move.apply yard).jobs.get? move.id = some move.next := by
  unfold apply
  rw [Table.get?_modify_self, valid.found]
  rfl

theorem get?_apply_ne (move : Move) {id : String} (h : id ≠ move.id) :
    (move.apply yard).jobs.get? id = yard.jobs.get? id :=
  Table.get?_modify_ne _ _ h

theorem get?_apply_cases (valid : move.Valid policy yard) {id : String} {row : JobRow}
    (h : (move.apply yard).jobs.get? id = some row) :
    (id = move.id ∧ row = move.next) ∨ id ≠ move.id ∧ yard.jobs.get? id = some row := by
  by_cases hid : id = move.id
  · rw [hid, get?_apply_self valid, Option.some.injEq] at h
    exact .inl ⟨hid, h.symm⟩
  · rw [get?_apply_ne move hid] at h
    exact .inr ⟨hid, h⟩

theorem step (valid : move.Valid policy yard) (h : move.next.state.unsuccessful = false) :
    Step policy yard (move.apply yard) := by
  refine .micro (.move move valid) ?_
  intro id row hrow hfailed
  rcases get?_apply_cases valid hrow with ⟨_, rfl⟩ | ⟨_, hold⟩
  · rw [h] at hfailed
    cases hfailed
  · exact .inl hold

end Move

namespace Batch

variable {batch : Batch}

theorem mem_ids {id : String} : id ∈ batch.ids ↔ ∃ row, (id, row) ∈ batch.jobs := by
  unfold ids
  simp

theorem get?_apply_old (batch : Batch) {id : String} (h : yard.jobs.get? id = some row) :
    (batch.apply yard).jobs.get? id = some row :=
  Table.get?_insertAll_of_mem _ h

theorem get?_apply_new (valid : batch.Valid yard) {id : String} (h : (id, row) ∈ batch.jobs) :
    (batch.apply yard).jobs.get? id = some row :=
  Table.get?_insertAll_new _ valid.nodup h (valid.fresh id (mem_ids.mpr ⟨row, h⟩))

theorem get?_apply_cases (valid : batch.Valid yard) {id : String}
    (h : (batch.apply yard).jobs.get? id = some row) :
    ((id, row) ∈ batch.jobs ∧ yard.jobs.get? id = none) ∨
      id ∉ batch.ids ∧ yard.jobs.get? id = some row := by
  by_cases hid : id ∈ batch.ids
  · obtain ⟨admitted, hadmitted⟩ := mem_ids.mp hid
    rw [get?_apply_new valid hadmitted, Option.some.injEq] at h
    exact .inl ⟨h ▸ hadmitted, valid.fresh id hid⟩
  · refine .inr ⟨hid, ?_⟩
    unfold apply at h
    rwa [Table.get?_insertAll_of_notMem _ hid] at h

theorem dependsOn_apply (batch : Batch) : (batch.apply yard).DependsOn child parent ↔
      yard.DependsOn child parent ∨ (child, parent) ∈ batch.edges := by
  unfold Yard.DependsOn apply
  rw [Table.mem_keys_insertAll]
  simp

theorem dependsOn_apply_old (valid : batch.Valid yard) (h : yard.jobs.get? child = some row) :
    (batch.apply yard).DependsOn child parent ↔ yard.DependsOn child parent := by
  rw [dependsOn_apply]
  constructor
  · rintro (hedge | hedge)
    · exact hedge
    · obtain ⟨_, hmem, _⟩ := valid.child child parent hedge
      rw [valid.fresh child (mem_ids.mpr ⟨_, hmem⟩)] at h
      cases h
  · exact .inl

end Batch

structure Later (row row' : JobRow) : Prop where
  identity : SameIdentity row row'
  version : row.stateVersion ≤ row'.stateVersion
  attemptNo : row.attemptNo ≤ row'.attemptNo
  same : row'.stateVersion = row.stateVersion → row' = row
  final : row.state.terminal = true → row' = row

theorem Later.refl (row : JobRow) : Later row row :=
  ⟨⟨rfl, rfl, rfl, rfl⟩, le_refl _, le_refl _, fun _ => rfl, fun _ => rfl⟩

theorem Later.trans (h : Later row row') (h' : Later row' row'') : Later row row'' where
  identity := ⟨h'.identity.tenantID.trans h.identity.tenantID,
    h'.identity.queueName.trans h.identity.queueName,
    h'.identity.slotCost.trans h.identity.slotCost,
    h'.identity.retry.trans h.identity.retry⟩
  version := h.version.trans h'.version
  attemptNo := h.attemptNo.trans h'.attemptNo
  same := by
    intro heq
    have hfirst : row'.stateVersion = row.stateVersion :=
      le_antisymm (heq ▸ h'.version) h.version
    rw [h'.same (heq.trans hfirst.symm), h.same hfirst]
  final := by
    intro hterminal
    have hrow := h.final hterminal
    rw [h'.final (hrow ▸ hterminal), hrow]

structure Evolves (yard yard' : Yard) : Prop where
  jobs : ∀ id row, yard.jobs.get? id = some row →
    ∃ row', yard'.jobs.get? id = some row' ∧ Later row row'
  edges : ∀ child parent row, yard.jobs.get? child = some row →
    (yard'.DependsOn child parent ↔ yard.DependsOn child parent)
  completions : ∀ id completion, yard.completions.get? id = some completion →
    yard'.completions.get? id = some completion
  deadLetters : ∀ id, yard.deadLetters id = true → yard'.deadLetters id = true

namespace Evolves

theorem of_same (jobs : yard'.jobs = yard.jobs) (edges : yard'.edges = yard.edges)
    (completions : yard'.completions = yard.completions)
    (deadLetters : yard'.deadLetters = yard.deadLetters) : Evolves yard yard' where
  jobs := fun _ row h => ⟨row, by rwa [jobs], .refl row⟩
  edges := by
    intro child parent _ _
    unfold Yard.DependsOn
    rw [edges]
  completions := fun _ _ h => by rwa [completions]
  deadLetters := fun _ h => by rwa [deadLetters]

theorem refl (yard : Yard) : Evolves yard yard := .of_same rfl rfl rfl rfl

theorem trans (h : Evolves yard yard') (h' : Evolves yard' yard'') : Evolves yard yard'' where
  jobs := by
    intro id row hrow
    obtain ⟨row', hrow', hlater⟩ := h.jobs id row hrow
    obtain ⟨row'', hrow'', hlater'⟩ := h'.jobs id row' hrow'
    exact ⟨row'', hrow'', hlater.trans hlater'⟩
  edges := by
    intro child parent row hrow
    obtain ⟨row', hrow', _⟩ := h.jobs child row hrow
    rw [h'.edges child parent row' hrow', h.edges child parent row hrow]
  completions := fun id completion hrow => h'.completions id _ (h.completions id _ hrow)
  deadLetters := fun id hdead => h'.deadLetters id (h.deadLetters id hdead)

theorem terminal (h : Evolves yard yard') {id : String} (hrow : yard.jobs.get? id = some row)
    (hterminal : row.state.terminal = true) :
    yard'.jobs.get? id = some row := by
  obtain ⟨row', hrow', hlater⟩ := h.jobs id row hrow
  rw [hrow', hlater.final hterminal]

end Evolves

theorem Move.Kind.attemptNo_le {move : Move} (h : move.Kind policy yard) :
    move.row.attemptNo ≤ move.next.attemptNo := by
  cases h with
  | lease _ _ _ _ hattempt => omega
  | start _ _ _ same => exact same.attemptNo.ge
  | close _ _ _ same => exact same.attemptNo.ge
  | ready _ _ _ same => exact same.attemptNo.ge
  | override _ _ _ same => exact same.attemptNo.ge
  | cascade _ _ _ _ same => exact same.attemptNo.ge

theorem Move.Valid.later {move : Move} (valid : move.Valid policy yard) :
    Later move.row move.next where
  identity := valid.identity
  version := by rw [valid.version]; omega
  attemptNo := valid.kind.attemptNo_le
  same := by
    intro heq
    rw [valid.version] at heq
    omega
  final := by
    intro hterminal
    rw [valid.alive] at hterminal
    cases hterminal

theorem Move.Valid.evolves {move : Move} (valid : move.Valid policy yard) :
    Evolves yard (move.apply yard) where
  jobs := by
    intro id row hrow
    by_cases hid : id = move.id
    · rw [hid, valid.found, Option.some.injEq] at hrow
      rw [hid, ← hrow]
      exact ⟨move.next, Move.get?_apply_self valid, valid.later⟩
    · exact ⟨row, (Move.get?_apply_ne move hid).trans hrow, .refl row⟩
  edges := fun _ _ _ _ => Iff.rfl
  completions := by
    intro id completion hrow
    unfold Move.apply
    dsimp only
    split
    · rw [Table.get?_insert]
      by_cases hid : id = move.id
      · rw [if_pos hid, ← hid, hrow, Option.getD_some]
      · rw [if_neg hid, hrow]
    · exact hrow
  deadLetters := by
    intro id hdead
    unfold Move.apply
    dsimp only
    split
    · by_cases hid : id = move.id
      · rw [hid, Function.update_self]
      · rwa [Function.update_of_ne hid]
    · exact hdead

theorem Batch.Valid.evolves {batch : Batch} (valid : batch.Valid yard) :
    Evolves yard (batch.apply yard) where
  jobs := fun _ row hrow => ⟨row, Batch.get?_apply_old batch hrow, .refl row⟩
  edges := fun _ _ _ hrow => Batch.dependsOn_apply_old valid hrow
  completions := fun _ _ hrow => Table.get?_insertAll_of_mem _ hrow
  deadLetters := by
    intro id hdead
    unfold Batch.apply
    simp [hdead]

theorem Micro.step_of_jobs (h : Micro policy yard yard') (hjobs : yard'.jobs = yard.jobs) :
    Step policy yard yard' :=
  .micro h fun _ _ hrow _ => .inl (hjobs ▸ hrow)

theorem Micro.evolves (h : Micro policy yard yard') : Evolves yard yard' := by
  cases h with
  | tenant => exact .of_same rfl rfl rfl rfl
  | queue => exact .of_same rfl rfl rfl rfl
  | admission batch valid => exact valid.evolves
  | heartbeat => exact .of_same rfl rfl rfl rfl
  | note => exact .of_same rfl rfl rfl rfl
  | move move valid => exact valid.evolves

theorem evolves_of_micros (h : ReflTransGen (Micro policy) yard yard') : Evolves yard yard' := by
  induction h with
  | refl => exact .refl yard
  | tail _ hlast ih => exact ih.trans hlast.evolves

end RailYard.Lifecycle
