import RailYard.Lifecycle.Evolution

/-! Two records of what a job has come to: the ledger, which holds a row for a
job exactly while it is terminal, and the history, whose last entry is the
job's present state. -/
namespace RailYard.Lifecycle
open Library Store

/-- The completion row that repeats a terminal row of `jobs`. -/
structure Settles (row : JobRow) (completion : CompletionRow) : Prop where
  state : completion.state = row.state
  stateVersion : completion.stateVersion = row.stateVersion
  attemptNo : completion.attemptNo = row.attemptNo
  committedAt : row.terminalAt = some completion.committedAt

theorem settles_ledgerRow (outputDigest : String) (h : row.terminalAt.isSome) :
    Settles row (ledgerRow row outputDigest) := by
  obtain ⟨time, htime⟩ := Option.isSome_iff_exists.mp h
  exact ⟨rfl, rfl, rfl, by simp [ledgerRow, htime]⟩

structure Accounted (yard : Yard) (id : String) (row : JobRow) : Prop where
  settled : row.state.terminal = true →
    ∃ completion, yard.completions.get? id = some completion ∧ Settles row completion
  unsettled : row.state.terminal = false → yard.completions.get? id = none
  deadLetter : yard.deadLetters id = true ↔ row.state = .deadLetter

structure Ledger (yard : Yard) : Prop where
  accounted : ∀ id row, yard.jobs.get? id = some row → Accounted yard id row
  absent : ∀ id, yard.jobs.get? id = none →
    yard.completions.get? id = none ∧ yard.deadLetters id = false

theorem Ledger.of_same (h : Ledger yard) (jobs : yard'.jobs = yard.jobs)
    (completions : yard'.completions = yard.completions)
    (deadLetters : yard'.deadLetters = yard.deadLetters) : Ledger yard' where
  accounted := by
    intro id row hrow
    rw [jobs] at hrow
    obtain ⟨hsettled, hunsettled, hdead⟩ := h.accounted id row hrow
    exact ⟨by rwa [completions], by rwa [completions], by rwa [deadLetters]⟩
  absent := by
    intro id hnone
    rw [jobs] at hnone
    rw [completions, deadLetters]
    exact h.absent id hnone

theorem Move.completions_apply_ne (move : Move) {id : String} (h : id ≠ move.id) :
    (move.apply yard).completions.get? id = yard.completions.get? id := by
  unfold Move.apply
  dsimp only
  split
  · exact Table.get?_insert_ne _ _ h
  · rfl

theorem Move.deadLetters_apply_ne (move : Move) {id : String} (h : id ≠ move.id) :
    (move.apply yard).deadLetters id = yard.deadLetters id := by
  unfold Move.apply
  dsimp only
  split
  · exact Function.update_of_ne h _ _
  · rfl

theorem Ledger.move {move : Move} (h : Ledger yard) (valid : move.Valid policy yard) :
    Ledger (move.apply yard) where
  accounted := by
    intro id row hrow
    rcases Move.get?_apply_cases valid hrow with ⟨rfl, rfl⟩ | ⟨hne, hold⟩
    · have hbefore := h.accounted move.id move.row valid.found
      have hnone := hbefore.unsettled valid.alive
      have hnotDead : yard.deadLetters move.id = false := by
        rw [← Bool.not_eq_true]
        intro hdead
        have hterminal := deadLetter_terminal (hbefore.deadLetter.mp hdead)
        rw [valid.alive] at hterminal
        cases hterminal
      refine ⟨?_, ?_, ?_⟩
      · intro hterminal
        refine ⟨ledgerRow move.next move.outputDigest, ?_, settles_ledgerRow _ (valid.ended hterminal)⟩
        unfold Move.apply
        simp only [hterminal, if_true]
        exact Table.get?_insert_self _ _ hnone
      · intro halive
        unfold Move.apply
        simp only [halive, Bool.false_eq_true, if_false]
        exact hnone
      · unfold Move.apply
        dsimp only
        by_cases hdead : move.next.state = .deadLetter
        · simp [hdead]
        · simp [hdead, hnotDead]
    · obtain ⟨hsettled, hunsettled, hdead⟩ := h.accounted id row hold
      exact ⟨by rwa [Move.completions_apply_ne move hne],
        by rwa [Move.completions_apply_ne move hne],
        by rwa [Move.deadLetters_apply_ne move hne]⟩
  absent := by
    intro id hnone
    have hne : id ≠ move.id := by
      intro heq
      rw [heq, Move.get?_apply_self valid] at hnone
      cases hnone
    rw [Move.get?_apply_ne move hne] at hnone
    rw [Move.completions_apply_ne move hne, Move.deadLetters_apply_ne move hne]
    exact h.absent id hnone

namespace Batch

variable {batch : Batch}

theorem ledger_keys : ((batch.jobs.filter fun entry => entry.2.state.terminal).map
    fun entry => (entry.1, ledgerRow entry.2 "")).map Prod.fst =
      (batch.jobs.filter fun entry => entry.2.state.terminal).map Prod.fst := by
  rw [List.map_map]
  rfl

theorem eq_of_mem (valid : batch.Valid yard) {id : String} (h : (id, row) ∈ batch.jobs)
    (h' : (id, row') ∈ batch.jobs) : row = row' := by
  have hrow := get?_apply_new valid h
  rw [get?_apply_new valid h', Option.some.injEq] at hrow
  exact hrow.symm

theorem completions_apply_of_notMem (batch : Batch) {id : String}
    (h : ∀ row, (id, row) ∈ batch.jobs → row.state.terminal = false) :
    (batch.apply yard).completions.get? id = yard.completions.get? id := by
  unfold apply
  apply Table.get?_insertAll_of_notMem
  rw [ledger_keys, List.mem_map]
  rintro ⟨⟨found, row⟩, hmem, rfl⟩
  rw [List.mem_filter] at hmem
  have halive := h row hmem.1
  rw [hmem.2] at halive
  cases halive

theorem deadLetters_apply (batch : Batch) (id : String) :
    (batch.apply yard).deadLetters id = true ↔ yard.deadLetters id = true ∨
      ∃ row, (id, row) ∈ batch.jobs ∧ row.state = .deadLetter := by
  unfold apply
  simp only [Bool.or_eq_true, List.any_eq_true, Bool.and_eq_true, decide_eq_true_eq, Prod.exists]
  constructor
  · rintro (hdead | ⟨found, row, hmem, rfl, hstate⟩)
    · exact .inl hdead
    · exact .inr ⟨row, hmem, hstate⟩
  · rintro (hdead | ⟨row, hmem, hstate⟩)
    · exact .inl hdead
    · exact .inr ⟨id, row, hmem, rfl, hstate⟩

end Batch

theorem Batch.NewRow.terminal_iff {batch : Batch} {row : JobRow} (h : batch.NewRow yard row) :
    row.state.terminal = true ↔ row.state = .deadLetter := by
  rcases h.state with hstate | hstate <;> rw [hstate] <;> decide

theorem Ledger.admission {batch : Batch} (h : Ledger yard) (valid : batch.Valid yard) :
    Ledger (batch.apply yard) where
  accounted := by
    intro id row hrow
    rcases Batch.get?_apply_cases valid hrow with ⟨hmem, hnone⟩ | ⟨hid, hold⟩
    · obtain ⟨hcompletions, hdead⟩ := h.absent id hnone
      have hnew := valid.rows id row hmem
      refine ⟨?_, ?_, ?_⟩
      · intro hterminal
        have hended := hnew.ended (hnew.terminal_iff.mp hterminal)
        refine ⟨_, Table.get?_insertAll_new _ ?_ (List.mem_map.mpr ⟨(id, row),
          List.mem_filter.mpr ⟨hmem, hterminal⟩, rfl⟩) hcompletions, settles_ledgerRow _ hended⟩
        rw [Batch.ledger_keys]
        exact valid.nodup.sublist (List.filter_sublist.map _)
      · intro halive
        rw [Batch.completions_apply_of_notMem batch, hcompletions]
        intro row' hmem'
        rwa [Batch.eq_of_mem valid hmem' hmem]
      · rw [Batch.deadLetters_apply, hdead]
        constructor
        · rintro (hfalse | ⟨row', hmem', hstate⟩)
          · cases hfalse
          · rwa [Batch.eq_of_mem valid hmem hmem']
        · intro hstate
          exact .inr ⟨row, hmem, hstate⟩
    · obtain ⟨hsettled, hunsettled, hdead⟩ := h.accounted id row hold
      have houtside : ∀ row', (id, row') ∉ batch.jobs :=
        fun row' hmem => hid (Batch.mem_ids.mpr ⟨row', hmem⟩)
      have hcompletions : (batch.apply yard).completions.get? id = yard.completions.get? id :=
        batch.completions_apply_of_notMem fun row' hmem => absurd hmem (houtside row')
      refine ⟨by rwa [hcompletions], by rwa [hcompletions], ?_⟩
      rw [Batch.deadLetters_apply, hdead]
      constructor
      · rintro (hstate | ⟨row', hmem', _⟩)
        · exact hstate
        · exact absurd hmem' (houtside row')
      · exact .inl
  absent := by
    intro id hnone
    have houtside : ∀ row, (id, row) ∉ batch.jobs := by
      intro row hmem
      rw [Batch.get?_apply_new valid hmem] at hnone
      cases hnone
    have hold : yard.jobs.get? id = none := by
      cases hget : yard.jobs.get? id with
      | none => rfl
      | some row =>
        rw [Batch.get?_apply_old batch hget] at hnone
        cases hnone
    obtain ⟨hcompletions, hdead⟩ := h.absent id hold
    refine ⟨?_, ?_⟩
    · rw [Batch.completions_apply_of_notMem batch fun row hmem => absurd hmem (houtside row),
        hcompletions]
    · rw [← Bool.not_eq_true, Batch.deadLetters_apply, hdead]
      rintro (hfalse | ⟨row, hmem, _⟩)
      · cases hfalse
      · exact houtside row hmem

theorem Ledger.micro (yard yard' : Yard) (h : Ledger yard) (hstep : Micro policy yard yard') :
    Ledger yard' := by
  cases hstep with
  | tenant => exact h.of_same rfl rfl rfl
  | queue => exact h.of_same rfl rfl rfl
  | admission batch valid => exact h.admission valid
  | heartbeat => exact h.of_same rfl rfl rfl
  | note => exact h.of_same rfl rfl rfl
  | move move valid => exact h.move valid

end RailYard.Lifecycle
