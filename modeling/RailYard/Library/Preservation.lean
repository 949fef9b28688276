import RailYard.Library.Transaction

/-! Programs that keep a relation between the state they find and the state they
leave. A failure is no exception: a caller that goes on after an error finds a
related state. A view that stays as it is is the relation used most. -/
namespace RailYard.Library.Transaction

variable {ε σ α β γ κ ρ : Type}

def after (program : Transaction ε σ α) (state : σ) : σ :=
  match program state with
  | .ok _ state' => state'
  | .error _ state' => state'

def Relates (related : σ → σ → Prop) (program : Transaction ε σ α) : Prop :=
  ∀ state, related state (after program state)

def Unchanged (view : σ → γ) (before after : σ) : Prop := view after = view before

instance (view : σ → γ) : IsPreorder σ (Unchanged view) where
  refl _ := rfl
  trans _ _ _ first second := second.trans first

abbrev Preserves (view : σ → γ) (program : Transaction ε σ α) : Prop :=
  Relates (Unchanged view) program

theorem after_ok (h : program state = .ok value state') : after program state = state' := by
  unfold after
  rw [h]

theorem after_error (h : program state = .error error state') : after program state = state' := by
  unfold after
  rw [h]

theorem Preserves.ok (h : Preserves view program) (hrun : program state = .ok value state') :
    view state' = view state := by
  rw [← after_ok hrun]
  exact h state

namespace Relates

variable {related : σ → σ → Prop}

theorem ok (h : Relates related program) (hrun : program state = .ok value state') :
    related state state' := by
  rw [← after_ok hrun]
  exact h state

theorem mutate (h : ∀ state, related state (change state)) :
    Relates related (mutate change : Transaction ε σ Unit) := h

theorem attempt (h : Relates related program) : Relates related (attempt program) := by
  intro state
  have hrun := h state
  unfold after at hrun
  unfold after Transaction.attempt
  cases hresult : program state <;> rw [hresult] at hrun <;> exact hrun

variable [IsPreorder σ related]

theorem commit (h : Relates related program) (state : σ) :
    related state (commit program state).2 := by
  unfold Transaction.commit
  cases hrun : program state with
  | ok value between => exact h.ok hrun
  | error error between => exact refl_of related state

theorem bind (h : Relates related program) (hnext : ∀ value, Relates related (next value)) :
    Relates related (program >>= next) := by
  intro state
  have hfirst := h state
  cases hrun : program state with
  | ok value between =>
    rw [after_ok hrun] at hfirst
    have hrest := hnext value between
    unfold after at hrest ⊢
    rw [bind_run hrun]
    exact trans_of related hfirst hrest
  | error error between =>
    rw [after_error hrun] at hfirst
    rw [after_error (bind_run_error hrun)]
    exact hfirst

theorem bindOption {program : Transaction ε σ (Option α)} {next : Option α → Transaction ε σ β}
    (h : Relates related program) (hnone : Relates related (next none))
    (hsome : ∀ value, Relates related (next (some value))) : Relates related (program >>= next) :=
  .bind h fun
    | none => hnone
    | some value => hsome value

theorem pure (value : α) : Relates related (Pure.pure value : Transaction ε σ α) :=
  fun state => refl_of related state

theorem throw (error : ε) : Relates related (MonadExcept.throw error : Transaction ε σ α) :=
  fun state => refl_of related state

theorem require (condition : Prop) [Decidable condition] (error : ε) :
    Relates related (require condition error : Transaction ε σ Unit) := by
  unfold Transaction.require
  split
  · exact .pure ()
  · exact .throw error

theorem lift (result : Except ε α) : Relates related (lift result : Transaction ε σ α) := by
  cases result with
  | ok value => exact .pure value
  | error error => exact .throw error

theorem query (read : σ → α) : Relates related (query read : Transaction ε σ α) :=
  fun state => refl_of related state

omit [IsPreorder σ related] in
theorem query_bind {read : σ → α} {next : α → Transaction ε σ β}
    (h : ∀ state, related state (after (next (read state)) state)) :
    Relates related (Transaction.query read >>= next) := h

theorem onlyIf {condition : Prop} [Decidable condition] (h : Relates related program) :
    Relates related (onlyIf condition program) := by
  unfold Transaction.onlyIf
  split
  · exact h
  · exact .pure ()

section Statements

variable [DecidableEq κ] {field : Field σ κ ρ}

theorem select (field : Field σ κ ρ) (key : κ) :
    Relates related (select field key : Transaction ε σ (Option ρ)) :=
  fun state => refl_of related state

theorem insert_of (error : ε) (h : ∀ state, (field.read state).get? key = none →
      related state (field.write state ((field.read state).insert key row))) :
    Relates related (insert field error key row) := by
  intro state
  unfold after Transaction.insert
  cases hrow : (field.read state).get? key with
  | none => exact h state hrow
  | some row => exact refl_of related state

theorem insert (hidden : ∀ state table, related state (field.write state table)) (error : ε)
    (key : κ) (row : ρ) : Relates related (insert field error key row) :=
  insert_of error fun state _ => hidden state _

theorem insertIfAbsent_of (h : ∀ state, (field.read state).get? key = none →
      related state (field.write state ((field.read state).insert key row))) :
    Relates related (insertIfAbsent field key row : Transaction ε σ Bool) := by
  intro state
  unfold after Transaction.insertIfAbsent
  cases hrow : (field.read state).get? key with
  | none => exact h state hrow
  | some row => exact refl_of related state

theorem insertIfAbsent (hidden : ∀ state table, related state (field.write state table))
    (key : κ) (row : ρ) : Relates related (insertIfAbsent field key row : Transaction ε σ Bool) :=
  insertIfAbsent_of fun state _ => hidden state _

theorem update_of {guard : ρ → Bool}
    (h : ∀ state, related state (field.write state ((field.read state).modify key change))) :
    Relates related (update field key guard change : Transaction ε σ Bool) := by
  intro state
  unfold after Transaction.update
  cases hrow : (field.read state).get? key with
  | none => exact refl_of related state
  | some row =>
    dsimp only
    cases guard row with
    | true => exact h state
    | false => exact refl_of related state

theorem update (hidden : ∀ state table, related state (field.write state table)) (key : κ)
    (guard : ρ → Bool) (change : ρ → ρ) :
    Relates related (update field key guard change : Transaction ε σ Bool) :=
  update_of fun state => hidden state _

end Statements

theorem forM {items : List α} (h : ∀ item, Relates related (body item)) :
    Relates related (items.forM body) := by
  induction items with
  | nil => exact .pure ()
  | cons item rest ih => exact .bind (h item) fun _ => ih

theorem mapM {items : List α} (h : ∀ item, Relates related (body item)) :
    Relates related (items.mapM' body) := by
  induction items with
  | nil => exact .pure []
  | cons item rest ih => exact .bind (h item) fun _ => .bind ih fun _ => .pure _

end Relates

end RailYard.Library.Transaction
