import Mathlib.Data.List.Basic

/-! Runs of a step function over a list of events. -/
namespace RailYard.Library

variable {σ ε : Type} {step : σ → ε → σ} {invariant : σ → Prop}

def Throughout (step : σ → ε → σ) (condition : σ → ε → Prop) : σ → List ε → Prop
  | _, [] => True
  | state, event :: rest => condition state event ∧ Throughout step condition (step state event) rest

theorem Throughout.keeps
    (hstep : ∀ state event, invariant state → condition state event → invariant (step state event))
    (hstate : invariant state) (h : Throughout step condition state events) :
    invariant (events.foldl step state) := by
  induction events generalizing state with
  | nil => exact hstate
  | cons event rest ih => exact ih (hstep state event hstate h.1) h.2

theorem Throughout.always (hcondition : ∀ state event, condition state event) (state : σ)
    (events : List ε) : Throughout step condition state events := by
  induction events generalizing state with
  | nil => trivial
  | cons event rest ih => exact ⟨hcondition state event, ih (step state event)⟩

theorem Throughout.of_forall_mem {allowed : ε → Prop} {state : σ} {events : List ε}
    (h : ∀ event ∈ events, allowed event) :
    Throughout step (fun _ event => allowed event) state events := by
  induction events generalizing state with
  | nil => trivial
  | cons event rest ih =>
    rw [List.forall_mem_cons] at h
    exact ⟨h.1, ih h.2⟩

/-- What an event of a run did, the last one or one before. -/
theorem exists_split_append_singleton {P : List ε → ε → Prop} :
    (∃ first event later, events ++ [last] = first ++ event :: later ∧ P first event) ↔
      P events last ∨ ∃ first event later, events = first ++ event :: later ∧ P first event := by
  constructor
  · rintro ⟨first, event, later, hsplit, h⟩
    rcases List.eq_nil_or_concat' later with rfl | ⟨later, other, rfl⟩
    · obtain ⟨rfl, hlast⟩ := List.append_inj' hsplit rfl
      cases hlast
      exact .inl h
    · rw [← List.cons_append, ← List.append_assoc] at hsplit
      obtain ⟨rfl, _⟩ := List.append_inj' hsplit rfl
      exact .inr ⟨first, event, later, rfl, h⟩
  · rintro (h | ⟨first, event, later, rfl, h⟩)
    · exact ⟨events, last, [], rfl, h⟩
    · exact ⟨first, event, later ++ [last], by rw [List.append_assoc, List.cons_append], h⟩

end RailYard.Library
