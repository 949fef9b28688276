import RailYard.Library.Table

/-! Transactions over a state of tables. A computation that fails still
returns the state it had reached, because a caller may go on after an error;
only `commit` throws that state away. The inversion rules below peel a
successful run apart one statement at a time. -/
namespace RailYard.Library

abbrev Transaction (ε σ α : Type) := EStateM ε σ α

namespace Transaction

variable {ε σ α β κ ρ : Type}

def commit (program : Transaction ε σ α) (state : σ) : Except ε α × σ :=
  match program state with
  | .ok value state' => (.ok value, state')
  | .error error _ => (.error error, state)

def require (condition : Prop) [Decidable condition] (error : ε) : Transaction ε σ Unit :=
  if condition then pure () else throw error

def lift (result : Except ε α) : Transaction ε σ α :=
  match result with
  | .ok value => pure value
  | .error error => throw error

def attempt (program : Transaction ε σ α) : Transaction ε σ (Except ε α) := fun state =>
  match program state with
  | .ok value state' => .ok (.ok value) state'
  | .error error state' => .ok (.error error) state'

def query (view : σ → α) : Transaction ε σ α := fun state => .ok (view state) state

def mutate (change : σ → σ) : Transaction ε σ Unit := fun state => .ok () (change state)

def onlyIf (condition : Prop) [Decidable condition] (program : Transaction ε σ Unit) :
    Transaction ε σ Unit :=
  if condition then program else pure ()

structure Field (σ κ ρ : Type) where
  read : σ → Table κ ρ
  write : σ → Table κ ρ → σ

variable [DecidableEq κ]

def select (field : Field σ κ ρ) (key : κ) : Transaction ε σ (Option ρ) := fun state =>
  .ok ((field.read state).get? key) state

def insert (field : Field σ κ ρ) (error : ε) (key : κ) (row : ρ) : Transaction ε σ Unit :=
  fun state =>
    match (field.read state).get? key with
    | some _ => .error error state
    | none => .ok () (field.write state ((field.read state).insert key row))

/-- Insertion that does nothing on a conflict; returns whether a row was added. -/
def insertIfAbsent (field : Field σ κ ρ) (key : κ) (row : ρ) : Transaction ε σ Bool :=
  fun state =>
    match (field.read state).get? key with
    | some _ => .ok false state
    | none => .ok true (field.write state ((field.read state).insert key row))

def update (field : Field σ κ ρ) (key : κ) (guard : ρ → Bool) (change : ρ → ρ) :
    Transaction ε σ Bool := fun state =>
  match (field.read state).get? key with
  | some row =>
    if guard row then .ok true (field.write state ((field.read state).modify key change))
    else .ok false state
  | none => .ok false state

omit [DecidableEq κ]

section Inversion

variable {program : Transaction ε σ α} {next : α → Transaction ε σ β} {state state' between : σ}
  {middle : α} {value : β} {error found : ε} {result : Except ε α} {condition : Prop}
  [Decidable condition]

theorem bind_ok (h : (program >>= next) state = .ok value state') :
    ∃ middle between, program state = .ok middle between ∧
      next middle between = .ok value state' := by
  change EStateM.bind program next state = .ok value state' at h
  unfold EStateM.bind at h
  split at h
  · rename_i middle between heq
    exact ⟨middle, between, heq, h⟩
  · cases h

theorem bind_error (h : (program >>= next) state = .error error state') :
    program state = .error error state' ∨
      ∃ middle between, program state = .ok middle between ∧
        next middle between = .error error state' := by
  change EStateM.bind program next state = .error error state' at h
  unfold EStateM.bind at h
  split at h
  · rename_i middle between heq
    exact .inr ⟨middle, between, heq, h⟩
  · rename_i found between heq
    rw [heq]
    cases h
    exact .inl rfl

theorem bind_run (h : program state = .ok middle between) :
    (program >>= next) state = next middle between := by
  change EStateM.bind program next state = _
  unfold EStateM.bind
  rw [h]

theorem bind_run_error (h : program state = .error error between) :
    (program >>= next) state = .error error between := by
  change EStateM.bind program next state = _
  unfold EStateM.bind
  rw [h]

theorem commit_error (h : (commit program state).1 = .error error) :
    ∃ state', program state = .error error state' := by
  unfold commit at h
  cases hrun : program state with
  | ok value state' =>
    rw [hrun] at h
    cases h
  | error found state' =>
    rw [hrun] at h
    cases h
    exact ⟨state', rfl⟩

theorem commit_cases (program : Transaction ε σ α) (state : σ) :
    (∃ value state', program state = .ok value state' ∧
      commit program state = (.ok value, state')) ∨
      ∃ error, commit program state = (.error error, state) := by
  unfold commit
  cases hrun : program state with
  | ok value state' => exact .inl ⟨value, state', rfl, rfl⟩
  | error error _ => exact .inr ⟨error, rfl⟩

theorem commit_ok_iff : commit program state = (.ok middle, state') ↔
    program state = .ok middle state' := by
  unfold commit
  cases program state with
  | ok result after => simp
  | error error after => simp

theorem commit_ok (h : (commit program state).1 = .ok middle) :
    ∃ state', program state = .ok middle state' :=
  ⟨_, commit_ok_iff.mp (Prod.ext h rfl)⟩

theorem commit_map (program : Transaction ε σ α) (view : α → β) (state : σ) :
    commit (program >>= fun value => pure (view value)) state =
      ((commit program state).1.map view, (commit program state).2) := by
  unfold commit
  cases hrun : program state with
  | ok value state' =>
    rw [bind_run hrun]
    rfl
  | error error state' =>
    rw [bind_run_error hrun]
    rfl

theorem pure_ok {middle value : α}
    (h : (pure middle : Transaction ε σ α) state = .ok value state') :
    middle = value ∧ state = state' := by
  cases h
  exact ⟨rfl, rfl⟩

theorem bind_pure_ok {view : α → β}
    (h : (program >>= fun result => pure (view result)) state = .ok value state') :
    ∃ result, view result = value ∧ program state = .ok result state' := by
  obtain ⟨result, between, hprogram, hpure⟩ := bind_ok h
  obtain ⟨rfl, rfl⟩ := pure_ok hpure
  exact ⟨result, rfl, hprogram⟩

theorem throw_ok (h : (throw error : Transaction ε σ α) state = .ok middle state') : False := by
  cases h

theorem throw_error (h : (throw error : Transaction ε σ α) state = .error found state') :
    error = found ∧ state = state' := by
  cases h
  exact ⟨rfl, rfl⟩

theorem require_ok (h : (require condition error : Transaction ε σ Unit) state = .ok () state') :
    condition ∧ state = state' := by
  unfold require at h
  split at h
  · rename_i hcondition
    exact ⟨hcondition, (pure_ok h).2⟩
  · exact (throw_ok h).elim

theorem require_bind {next : Unit → Transaction ε σ β}
    (h : (require condition error >>= next) state = .ok value state') :
    condition ∧ next () state = .ok value state' := by
  obtain ⟨_, _, hrequire, h⟩ := bind_ok h
  obtain ⟨hcondition, rfl⟩ := require_ok hrequire
  exact ⟨hcondition, h⟩

theorem require_error
    (h : (require condition error : Transaction ε σ Unit) state = .error found state') :
    ¬condition ∧ error = found ∧ state = state' := by
  unfold require at h
  split at h
  · cases h
  · rename_i hcondition
    exact ⟨hcondition, throw_error h⟩

theorem lift_run (h : result = .ok middle) :
    (lift result : Transaction ε σ α) state = .ok middle state := by
  rw [h]
  rfl

theorem lift_run_error (h : result = .error error) :
    (lift result : Transaction ε σ α) state = .error error state := by
  rw [h]
  rfl

theorem require_run (error : ε) (state : σ) (h : condition) :
    (require condition error : Transaction ε σ Unit) state = .ok () state := by
  unfold require
  rw [if_pos h]
  rfl

theorem require_run_error (error : ε) (state : σ) (h : ¬condition) :
    (require condition error : Transaction ε σ Unit) state = .error error state := by
  unfold require
  rw [if_neg h]
  rfl

theorem lift_ok (h : (lift result : Transaction ε σ α) state = .ok middle state') :
    result = .ok middle ∧ state = state' := by
  unfold lift at h
  split at h
  · obtain ⟨rfl, rfl⟩ := pure_ok h
    exact ⟨rfl, rfl⟩
  · exact (throw_ok h).elim

theorem lift_bind (h : (lift result >>= next) state = .ok value state') :
    ∃ middle, result = .ok middle ∧ next middle state = .ok value state' := by
  obtain ⟨middle, _, hlift, h⟩ := bind_ok h
  obtain ⟨hresult, rfl⟩ := lift_ok hlift
  exact ⟨middle, hresult, h⟩

theorem except_bind_ok {next : α → Except ε β} (h : (result >>= next) = .ok value) :
    ∃ middle, result = .ok middle ∧ next middle = .ok value := by
  cases result with
  | error error => cases h
  | ok middle => exact ⟨middle, rfl, h⟩

theorem mapError_ok {ε' : Type} {change : ε → ε'} (h : result.mapError change = .ok middle) :
    result = .ok middle := by
  cases result with
  | error error => cases h
  | ok found =>
    cases h
    rfl

theorem attempt_ok (h : attempt program state = .ok result state') :
    (∃ value, result = .ok value ∧ program state = .ok value state') ∨
      ∃ error, result = .error error ∧ program state = .error error state' := by
  unfold attempt at h
  split at h
  · rename_i value between heq
    cases h
    exact .inl ⟨value, rfl, heq⟩
  · rename_i error between heq
    cases h
    exact .inr ⟨error, rfl, heq⟩

theorem query_ok (h : (query view : Transaction ε σ α) state = .ok middle state') :
    view state = middle ∧ state = state' := by
  cases h
  exact ⟨rfl, rfl⟩

theorem query_bind (h : (query view >>= next) state = .ok value state') :
    next (view state) state = .ok value state' := h

theorem mutate_ok (h : (mutate change : Transaction ε σ Unit) state = .ok () state') :
    change state = state' := by
  cases h
  rfl

theorem onlyIf_ok {program : Transaction ε σ Unit}
    (h : onlyIf condition program state = .ok () state') :
    (condition ∧ program state = .ok () state') ∨ ¬condition ∧ state = state' := by
  unfold onlyIf at h
  split at h
  · rename_i hcondition
    exact .inl ⟨hcondition, h⟩
  · rename_i hcondition
    exact .inr ⟨hcondition, (pure_ok h).2⟩

end Inversion

section Statements

variable [DecidableEq κ] {field : Field σ κ ρ} {key : κ} {row : ρ} {state state' : σ} {error : ε}
  {value : β} {guard : ρ → Bool} {change : ρ → ρ}

theorem select_ok {found : Option ρ}
    (h : (select field key : Transaction ε σ (Option ρ)) state = .ok found state') :
    (field.read state).get? key = found ∧ state = state' := by
  cases h
  exact ⟨rfl, rfl⟩

theorem select_run (field : Field σ κ ρ) (key : κ) (state : σ) :
    (select field key : Transaction ε σ (Option ρ)) state =
      .ok ((field.read state).get? key) state := rfl

theorem select_found (h : (field.read state).get? key = some row) :
    (select field key : Transaction ε σ (Option ρ)) state = .ok (some row) state :=
  congrArg (EStateM.Result.ok · state) h

theorem select_absent (h : (field.read state).get? key = none) :
    (select field key : Transaction ε σ (Option ρ)) state = .ok none state :=
  congrArg (EStateM.Result.ok · state) h

theorem select_bind (hrow : (field.read state).get? key = some row)
    (h : (select field key >>= next) state = .ok value state') :
    next (some row) state = .ok value state' :=
  (bind_run (select_found hrow)).symm.trans h

theorem found_bind {next : Option ρ → Transaction ε σ β}
    (h : (select field key >>= next) state = .ok value state') (hnone : next none = throw error) :
    ∃ row, (field.read state).get? key = some row ∧ next (some row) state = .ok value state' := by
  obtain ⟨found, _, hselect, h⟩ := bind_ok h
  obtain ⟨hfound, rfl⟩ := select_ok hselect
  cases found with
  | none =>
    rw [hnone] at h
    exact (throw_ok h).elim
  | some row => exact ⟨row, hfound, h⟩

theorem record_bind {γ : Type} {view : ρ → γ} {check : ρ → Prop} [DecidablePred check]
    {body : Option ρ → Transaction ε σ (Option γ)} {next : Option γ → Transaction ε σ β}
    (h : ((select field key >>= body) >>= next) state = .ok value state')
    (hnone : body none = pure none)
    (hsome : ∀ row, body (some row) =
      require (check row) error >>= fun _ => pure (some (view row))) :
    (∃ row, (field.read state).get? key = some row ∧
      next (some (view row)) state = .ok value state') ∨
    (field.read state).get? key = none ∧ next none state = .ok value state' := by
  obtain ⟨found, _, hread, h⟩ := bind_ok h
  obtain ⟨row, _, hselect, hread⟩ := bind_ok hread
  obtain ⟨hrow, rfl⟩ := select_ok hselect
  cases row with
  | none =>
    rw [hnone] at hread
    obtain ⟨rfl, rfl⟩ := pure_ok hread
    exact .inr ⟨hrow, h⟩
  | some row =>
    rw [hsome] at hread
    obtain ⟨_, hread⟩ := require_bind hread
    obtain ⟨rfl, rfl⟩ := pure_ok hread
    exact .inl ⟨row, hrow, h⟩

theorem insert_ok (h : insert field error key row state = .ok () state') :
    (field.read state).get? key = none ∧
      field.write state ((field.read state).insert key row) = state' := by
  unfold insert at h
  split at h
  · cases h
  · rename_i habsent
    cases h
    exact ⟨habsent, rfl⟩

theorem insert_run (error : ε) (row : ρ) (h : (field.read state).get? key = none) :
    insert field error key row state =
      .ok () (field.write state ((field.read state).insert key row)) := by
  unfold insert
  rw [h]

theorem insertIfAbsent_ok
    (h : (insertIfAbsent field key row : Transaction ε σ Bool) state = .ok added state') :
    (added = false ∧ (∃ old, (field.read state).get? key = some old) ∧ state = state') ∨
      added = true ∧ (field.read state).get? key = none ∧
        field.write state ((field.read state).insert key row) = state' := by
  unfold insertIfAbsent at h
  split at h
  · rename_i old hold
    cases h
    exact .inl ⟨rfl, ⟨old, hold⟩, rfl⟩
  · rename_i habsent
    cases h
    exact .inr ⟨rfl, habsent, rfl⟩

theorem update_run (change : ρ → ρ) (hrow : (field.read state).get? key = some row)
    (hguard : guard row = true) :
    (update field key guard change : Transaction ε σ Bool) state =
      .ok true (field.write state ((field.read state).modify key change)) := by
  unfold update
  rw [hrow]
  simp only [hguard, if_true]

theorem update_run_refused (change : ρ → ρ)
    (h : ∀ row, (field.read state).get? key = some row → guard row = false) :
    (update field key guard change : Transaction ε σ Bool) state = .ok false state := by
  unfold update
  cases hrow : (field.read state).get? key with
  | none => rfl
  | some row =>
    dsimp only
    rw [if_neg (Bool.eq_false_iff.mp (h row hrow))]

theorem update_ok
    (h : (update field key guard change : Transaction ε σ Bool) state = .ok affected state') :
    (affected = true ∧ ∃ row, (field.read state).get? key = some row ∧ guard row = true ∧
        field.write state ((field.read state).modify key change) = state') ∨
      affected = false ∧ (∀ row, (field.read state).get? key = some row → guard row = false) ∧
        state = state' := by
  by_cases hrefused : ∀ row, (field.read state).get? key = some row → guard row = false
  · rw [update_run_refused change hrefused] at h
    cases h
    exact .inr ⟨rfl, hrefused, rfl⟩
  · push Not at hrefused
    obtain ⟨row, hrow, hguard⟩ := hrefused
    have hguard := Bool.eq_true_of_not_eq_false hguard
    rw [update_run change hrow hguard] at h
    cases h
    exact .inl ⟨rfl, row, hrow, hguard, rfl⟩

theorem update_error
    (h : (update field key guard change : Transaction ε σ Bool) state = .error error state') :
    False := by
  unfold update at h
  split at h
  · split at h <;> cases h
  · cases h

theorem update_require_ok (h : (update field key guard change >>= fun affected =>
      require (affected = true) error >>= fun _ => next) state = .ok value state') :
    ∃ row, (field.read state).get? key = some row ∧ guard row = true ∧
      next (field.write state ((field.read state).modify key change)) = .ok value state' := by
  obtain ⟨affected, between, hupdate, h⟩ := bind_ok h
  obtain ⟨haffected, h⟩ := require_bind h
  rcases update_ok hupdate with ⟨_, row, hrow, hguard, rfl⟩ | ⟨hfalse, _⟩
  · exact ⟨row, hrow, hguard, h⟩
  · rw [hfalse] at haffected
    cases haffected

end Statements

section Loops

variable {state state' : σ} {body : α → Transaction ε σ Unit}

theorem forM_ok {motive : List α → σ → Prop} {items : List α}
    (hstep : ∀ item rest before after, motive (item :: rest) before →
      body item before = .ok () after → motive rest after)
    (hstart : motive items state) (h : items.forM body state = .ok () state') :
    motive [] state' := by
  induction items generalizing state with
  | nil =>
    obtain ⟨_, rfl⟩ := pure_ok h
    exact hstart
  | cons item rest ih =>
    obtain ⟨_, between, hitem, hrest⟩ := bind_ok h
    exact ih (hstep item rest state between hstart hitem) hrest

end Loops

def Succeeds (program : Transaction ε σ α) (state : σ) : Prop :=
  ∃ value state', program state = .ok value state'

namespace Succeeds

variable {state : σ} {program : Transaction ε σ α} {next : α → Transaction ε σ β}

theorem bind (h : Succeeds program state)
    (hnext : ∀ value state', program state = .ok value state' → Succeeds (next value) state') :
    Succeeds (program >>= next) state := by
  obtain ⟨value, state', hrun⟩ := h
  obtain ⟨result, last, hrest⟩ := hnext value state' hrun
  exact ⟨result, last, (bind_run hrun).trans hrest⟩

theorem pure (value : α) : Succeeds (Pure.pure value : Transaction ε σ α) state :=
  ⟨value, state, rfl⟩

theorem query (view : σ → α) : Succeeds (query view : Transaction ε σ α) state :=
  ⟨view state, state, rfl⟩

theorem mutate (change : σ → σ) : Succeeds (mutate change : Transaction ε σ Unit) state :=
  ⟨(), change state, rfl⟩

theorem require {condition : Prop} [Decidable condition] (h : condition) :
    Succeeds (require condition error : Transaction ε σ Unit) state :=
  ⟨(), state, require_run error state h⟩

theorem onlyIf {condition : Prop} [Decidable condition] {program : Transaction ε σ Unit}
    (h : condition → Succeeds program state) : Succeeds (onlyIf condition program) state := by
  unfold Transaction.onlyIf
  split
  · rename_i hcondition
    exact h hcondition
  · exact pure ()

section Statements

variable [DecidableEq κ] {field : Field σ κ ρ} {key : κ}

theorem insert (h : (field.read state).get? key = none) :
    Succeeds (insert field error key row) state :=
  ⟨(), _, insert_run error row h⟩

theorem insertIfAbsent (row : ρ) :
    Succeeds (insertIfAbsent field key row : Transaction ε σ Bool) state := by
  unfold Succeeds Transaction.insertIfAbsent
  split
  · exact ⟨false, state, rfl⟩
  · exact ⟨true, _, rfl⟩

theorem update (guard : ρ → Bool) (change : ρ → ρ) :
    Succeeds (update field key guard change : Transaction ε σ Bool) state := by
  cases hrun : (Transaction.update field key guard change : Transaction ε σ Bool) state with
  | ok affected state' => exact ⟨affected, state', hrun⟩
  | error error state' => exact (update_error hrun).elim

theorem update_check {guard : ρ → Bool} (hrow : (field.read state).get? key = some row)
    (hguard : guard row = true) :
    Succeeds (Transaction.update field key guard change >>= fun affected =>
      Transaction.require (affected = true) error) state :=
  .bind (.update guard change) fun affected state' hupdate => .require (by
    rw [update_run change hrow hguard] at hupdate
    cases hupdate
    rfl)

theorem update_require {guard : ρ → Bool} {change : ρ → ρ} {error : ε} {row : ρ}
    {next : Transaction ε σ β} (hrow : (field.read state).get? key = some row)
    (hguard : guard row = true)
    (hnext : Succeeds next (field.write state ((field.read state).modify key change))) :
    Succeeds (Transaction.update field key guard change >>= fun affected =>
      Transaction.require (affected = true) error >>= fun _ => next) state := by
  obtain ⟨value, state', hrun⟩ := hnext
  refine ⟨value, state', ?_⟩
  rw [bind_run (update_run change hrow hguard), bind_run (require_run error _ rfl)]
  exact hrun

end Statements

theorem forM {motive : List α → σ → Prop} {body : α → Transaction ε σ Unit} {items : List α}
    (hstep : ∀ item rest before, motive (item :: rest) before → Succeeds (body item) before ∧
      ∀ after, body item before = .ok () after → motive rest after)
    (hstart : motive items state) :
    ∃ state', items.forM body state = .ok () state' ∧ motive [] state' := by
  induction items generalizing state with
  | nil => exact ⟨state, rfl, hstart⟩
  | cons item rest ih =>
    obtain ⟨⟨_, after, hbody⟩, hmotive⟩ := hstep item rest state hstart
    obtain ⟨last, hrest, hend⟩ := ih (hmotive after hbody)
    exact ⟨last, (bind_run hbody).trans hrest, hend⟩

end Succeeds

def demand (condition : Prop) [Decidable condition] (error : ε) : Except ε Unit :=
  if condition then .ok () else .error error

def Yields (program : Transaction ε σ α) (state : σ) : Except ε Unit → Prop
  | .ok _ => Succeeds program state
  | .error error => ∃ state', program state = .error error state'

namespace Yields

variable {state : σ} {program : Transaction ε σ α} {next : α → Transaction ε σ β}
  {verdict verdict' : Except ε Unit}

theorem bind (h : Yields program state verdict)
    (hnext : ∀ value state', program state = .ok value state' →
      Yields (next value) state' verdict') :
    Yields (program >>= next) state (verdict >>= fun _ => verdict') := by
  cases verdict with
  | error error =>
    obtain ⟨state', hrun⟩ := h
    exact ⟨state', bind_run_error hrun⟩
  | ok _ =>
    obtain ⟨value, between, hrun⟩ := h
    have hrest := hnext value between hrun
    cases verdict' with
    | error error =>
      obtain ⟨state', hrest⟩ := hrest
      exact ⟨state', (bind_run hrun).trans hrest⟩
    | ok _ =>
      obtain ⟨result, state', hrest⟩ := hrest
      exact ⟨result, state', (bind_run hrun).trans hrest⟩

theorem after (h : Succeeds program state)
    (hnext : ∀ value state', program state = .ok value state' →
      Yields (next value) state' verdict) :
    Yields (program >>= next) state verdict := by
  have hfirst : Yields program state (.ok ()) := h
  exact hfirst.bind hnext

theorem before (h : Yields program state verdict)
    (hnext : ∀ value state', program state = .ok value state' →
      Succeeds (next value) state') :
    Yields (program >>= next) state verdict := by
  cases verdict with
  | error error =>
    obtain ⟨state', hrun⟩ := h
    exact ⟨state', bind_run_error hrun⟩
  | ok _ => exact Succeeds.bind h hnext

theorem check (result : Except ε Unit) :
    Yields (Transaction.lift result : Transaction ε σ Unit) state result := by
  cases result with
  | ok value => exact ⟨value, state, rfl⟩
  | error error => exact ⟨state, rfl⟩

theorem lift (result : Except ε α) :
    Yields (lift result : Transaction ε σ α) state (result.map fun _ => ()) := by
  cases result with
  | ok value => exact ⟨value, state, rfl⟩
  | error error => exact ⟨state, rfl⟩

theorem require (condition : Prop) [Decidable condition] (error : ε) :
    Yields (require condition error : Transaction ε σ Unit) state (demand condition error) := by
  unfold demand
  split
  · next h => exact Succeeds.require h
  · next h => exact ⟨state, require_run_error error state h⟩

theorem insert [DecidableEq κ] {field : Field σ κ ρ} (key : κ) (error : ε) (row : ρ) :
    Yields (insert field error key row) state
      (demand ((field.read state).get? key = none) error) := by
  unfold demand
  split
  · next h => exact Succeeds.insert h
  · next h =>
    obtain ⟨old, hold⟩ := Option.ne_none_iff_exists'.mp h
    refine ⟨state, ?_⟩
    unfold Transaction.insert
    rw [hold]

end Yields

def Inert (program : Transaction ε σ α) (state : σ) : Prop :=
  (∃ value, program state = .ok value state) ∨ ∃ error, program state = .error error state

namespace Inert

variable {state : σ} {program : Transaction ε σ α} {next : α → Transaction ε σ β}

theorem pure (value : α) : Inert (Pure.pure value : Transaction ε σ α) state := .inl ⟨value, rfl⟩

theorem bind (h : Inert program state) (hnext : ∀ value, Inert (next value) state) :
    Inert (program >>= next) state := by
  rcases h with ⟨value, hrun⟩ | ⟨error, hrun⟩
  · unfold Inert
    rw [bind_run hrun]
    exact hnext value
  · exact .inr ⟨error, bind_run_error hrun⟩

theorem require (condition : Prop) [Decidable condition] (error : ε) :
    Inert (require condition error : Transaction ε σ Unit) state := by
  by_cases h : condition
  · exact .inl ⟨(), require_run error state h⟩
  · exact .inr ⟨error, require_run_error error state h⟩

theorem attempt (h : Inert program state) : Inert (attempt program) state := by
  unfold Inert Transaction.attempt
  rcases h with ⟨value, hrun⟩ | ⟨error, hrun⟩
  · exact .inl ⟨.ok value, by rw [hrun]⟩
  · exact .inl ⟨.error error, by rw [hrun]⟩

end Inert

def FailsWith (allowed : ε → Prop) (program : Transaction ε σ α) : Prop :=
  ∀ state error state', program state = .error error state' → allowed error

namespace FailsWith

variable {allowed : ε → Prop} {program : Transaction ε σ α} {next : α → Transaction ε σ β}

theorem bind (h : FailsWith allowed program) (hnext : ∀ value, FailsWith allowed (next value)) :
    FailsWith allowed (program >>= next) := by
  intro state error state' herror
  rcases bind_error herror with hfirst | ⟨value, between, _, hrest⟩
  · exact h state error state' hfirst
  · exact hnext value between error state' hrest

theorem pure (value : α) : FailsWith allowed (Pure.pure value : Transaction ε σ α) :=
  fun _ _ _ h => by cases h

theorem throw (h : allowed error) :
    FailsWith allowed (MonadExcept.throw error : Transaction ε σ α) :=
  fun _ _ _ herror => (throw_error herror).1 ▸ h

theorem require {condition : Prop} [Decidable condition] (h : allowed error) :
    FailsWith allowed (require condition error : Transaction ε σ Unit) :=
  fun _ _ _ herror => (require_error herror).2.1 ▸ h

theorem query (view : σ → α) : FailsWith allowed (query view : Transaction ε σ α) :=
  fun _ _ _ h => by cases h

theorem mutate (change : σ → σ) : FailsWith allowed (mutate change : Transaction ε σ Unit) :=
  fun _ _ _ h => by cases h

theorem onlyIf {condition : Prop} [Decidable condition] {program : Transaction ε σ Unit}
    (h : FailsWith allowed program) : FailsWith allowed (onlyIf condition program) := by
  unfold Transaction.onlyIf
  split
  · exact h
  · exact .pure ()

theorem update [DecidableEq κ] (field : Field σ κ ρ) (key : κ) (guard : ρ → Bool)
    (change : ρ → ρ) : FailsWith allowed (update field key guard change) :=
  fun _ _ _ h => (update_error h).elim

theorem insert [DecidableEq κ] {field : Field σ κ ρ} {error : ε} {key : κ} {row : ρ}
    (h : allowed error) : FailsWith allowed (insert field error key row) := by
  intro state found state' herror
  unfold Transaction.insert at herror
  split at herror
  · cases herror
    exact h
  · cases herror

theorem forM {items : List α} (h : ∀ item ∈ items, FailsWith allowed (body item)) :
    FailsWith allowed (items.forM body) := by
  induction items with
  | nil => exact .pure ()
  | cons item rest ih =>
    exact .bind (h item (List.mem_cons_self ..))
      fun _ => ih fun other hother => h other (List.mem_cons_of_mem _ hother)

end FailsWith

end Transaction

end RailYard.Library
