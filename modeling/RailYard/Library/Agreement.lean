import RailYard.Library.Transaction

/-! Two programs that do the same as far as a view can tell. Started in states
with the same view they fail with the same error or return the same value in
states with the same view; where they fail, the transaction is rolled back and
the state no longer matters. -/
namespace RailYard.Library.Transaction

variable {ε σ α β γ κ ρ : Type}

def Agree (view : σ → γ) : EStateM.Result ε σ α → EStateM.Result ε σ α → Prop
  | .ok value state, .ok value' state' => value = value' ∧ view state = view state'
  | .error error _, .error error' _ => error = error'
  | _, _ => False

theorem Agree.cases {second : EStateM.Result ε σ α} (h : Agree view first second) :
    (∃ value state state', first = .ok value state ∧ second = .ok value state' ∧
      view state = view state') ∨
    ∃ error state state', first = .error error state ∧ second = .error error state' := by
  cases first <;> cases second
  case ok.ok value state value' state' =>
    obtain ⟨rfl, hview⟩ := h
    exact .inl ⟨value, state, state', rfl, rfl, hview⟩
  case error.error error state error' state' =>
    obtain rfl : error = error' := h
    exact .inr ⟨error, state, state', rfl, rfl⟩
  all_goals exact h.elim

def Alike (view : σ → γ) (program program' : Transaction ε σ α) : Prop :=
  ∀ state state', view state = view state' → Agree view (program state) (program' state')

structure Visible [DecidableEq κ] (view : σ → γ) (field : Field σ κ ρ) : Prop where
  read : ∀ state state', view state = view state' → field.read state = field.read state'
  write : ∀ state state' table, view state = view state' →
    view (field.write state table) = view (field.write state' table)

namespace Alike

variable {view : σ → γ}

theorem bind (h : Alike view program program')
    (hnext : ∀ value, Alike view (next value) (next' value)) :
    Alike view (program >>= next) (program' >>= next') := by
  intro state state' hview
  rcases (h state state' hview).cases with
    ⟨value, between, between', hrun, hrun', hbetween⟩ | ⟨error, _, _, hrun, hrun'⟩
  · rw [bind_run hrun, bind_run hrun']
    exact hnext value between between' hbetween
  · rw [bind_run_error hrun, bind_run_error hrun']
    rfl

theorem pure (value : α) : Alike view (Pure.pure value : Transaction ε σ α) (Pure.pure value) :=
  fun _ _ hview => ⟨rfl, hview⟩

theorem throw (error : ε) :
    Alike view (MonadExcept.throw error : Transaction ε σ α) (MonadExcept.throw error) :=
  fun _ _ _ => rfl

theorem lift (result : Except ε α) :
    Alike view (lift result : Transaction ε σ α) (Transaction.lift result) := by
  cases result with
  | ok value => exact .pure value
  | error error => exact .throw error

theorem require (condition : Prop) [Decidable condition] (error : ε) :
    Alike view (require condition error : Transaction ε σ Unit)
      (Transaction.require condition error) := by
  unfold Transaction.require
  split
  · exact .pure ()
  · exact .throw error

theorem onlyIf {condition : Prop} [Decidable condition] (h : Alike view program program') :
    Alike view (onlyIf condition program) (Transaction.onlyIf condition program') := by
  unfold Transaction.onlyIf
  split
  · exact h
  · exact .pure ()

theorem forM {items : List α} (h : ∀ item, Alike view (body item) (body' item)) :
    Alike view (items.forM body) (items.forM body') := by
  induction items with
  | nil => exact .pure ()
  | cons item rest ih => exact .bind (h item) fun _ => ih

theorem query {read : σ → α}
    (h : ∀ state state', view state = view state' → read state = read state') :
    Alike view (query read : Transaction ε σ α) (Transaction.query read) :=
  fun state state' hview => ⟨h state state' hview, hview⟩

theorem mutate
    (h : ∀ state state', view state = view state' → view (change state) = view (change' state')) :
    Alike view (mutate change : Transaction ε σ Unit) (Transaction.mutate change') :=
  fun state state' hview => ⟨rfl, h state state' hview⟩

section Statements

variable [DecidableEq κ] {field : Field σ κ ρ} (visible : Visible view field)
include visible

theorem select (key : κ) :
    Alike view (select field key : Transaction ε σ (Option ρ)) (Transaction.select field key) :=
  query fun state state' hview => by rw [visible.read state state' hview]

theorem insert (error : ε) (key : κ) (row : ρ) :
    Alike view (insert field error key row) (Transaction.insert field error key row) := by
  intro state state' hview
  unfold Transaction.insert
  rw [visible.read state state' hview]
  cases (field.read state').get? key with
  | none => exact ⟨rfl, visible.write state state' _ hview⟩
  | some row => rfl

theorem insertIfAbsent (key : κ) (row : ρ) :
    Alike view (insertIfAbsent field key row : Transaction ε σ Bool)
      (Transaction.insertIfAbsent field key row) := by
  intro state state' hview
  unfold Transaction.insertIfAbsent
  rw [visible.read state state' hview]
  cases (field.read state').get? key with
  | none => exact ⟨rfl, visible.write state state' _ hview⟩
  | some row => exact ⟨rfl, hview⟩

end Statements

end Alike

end RailYard.Library.Transaction
