import RailYard.Lifecycle.Evolution

/-! The edges of the state machine that the calls really draw: what moves a job,
from which state to which, and the event under which the change is recorded. -/
namespace RailYard.Lifecycle
open Domain Store Relation

inductive Cause where
  | acquire
  | start
  | complete
  | promote
  | reap
  | control (jobID action : String) (target : JobState)
  deriving DecidableEq

/-- The causes that can end a job without success, and with it what waits for it. -/
def Cause.fails : Cause → Bool
  | .complete | .reap => true
  | .control _ _ target => target.unsuccessful
  | _ => false

inductive Edge : Cause → String → EventType → JobState → JobState → Prop
  | leased (id : String) : Edge .acquire id .leaseAcquired .pending .scheduled
  | started (id : String) : Edge .start id .attemptStarted .scheduled .running
  | completed (id : String) {state next : JobState} (leased : state.leased = true)
      (ended : next.terminal = true) : Edge .complete id .jobCompleted state next
  | retried (id : String) {state : JobState} (leased : state.leased = true) :
      Edge .complete id .retryScheduled state .retrying
  | activated (id : String) : Edge .complete id .dependencyReleased .pending .pending
  | promoted (id : String) {state : JobState} (idle : state = .pending ∨ state = .retrying) :
      Edge .promote id .jobPromoted state .pending
  | requeued (id : String) {state : JobState} (leased : state.leased = true) :
      Edge .reap id .leaseReaped state .pending
  | expired (id : String) {state : JobState} (leased : state.leased = true) :
      Edge .reap id .leaseReaped state .deadLetter
  | controlled (id action : String) {state next : JobState} (alive : state.terminal = false)
      (target : next = .pending ∧ action = "release" ∨ next.unsuccessful = true) :
      Edge (.control id action next) id (.operator action) state next
  | cascaded {cause : Cause} (id : String) {state : JobState} (fails : cause.fails = true)
      (alive : state.terminal = false) : Edge cause id .upstreamFailed state .deadLetter

def Cause.Changes (id : String) (state next : JobState) : Cause → Prop
  | .acquire => state = .pending ∧ next = .scheduled
  | .start => state = .scheduled ∧ next = .running
  | .complete => state.leased = true ∧ (next.terminal = true ∨ next = .retrying) ∨
      state.terminal = false ∧ next = .deadLetter
  | .promote => state = .retrying ∧ next = .pending
  | .reap => state.leased = true ∧ next = .pending ∨
      state.terminal = false ∧ next = .deadLetter
  | .control jobID action target => state.terminal = false ∧
      (jobID = id ∧ next = target ∧ (target = .pending → action = "release") ∨
        target.unsuccessful = true ∧ next = .deadLetter)

theorem Edge.changes_tail {id : String} (hbefore : middle = first ∨ cause.Changes id first middle)
    (hedge : Edge cause id eventType middle last) : last = first ∨ cause.Changes id first last := by
  cases hedge with
  | leased | started | activated =>
    cases first <;> simp_all [Cause.Changes]
  | completed | retried | requeued | expired =>
    cases first <;> cases middle <;> simp_all [Cause.Changes, JobState.leased, JobState.terminal]
  | promoted =>
    cases first <;> cases middle <;> simp_all [Cause.Changes]
  | controlled _ action _ target =>
    have hnamed : last = .pending → action = "release" := by
      rintro rfl
      rcases target with ⟨_, hrelease⟩ | hfalse
      · exact hrelease
      · cases hfalse
    cases first <;> cases middle <;> simp_all [Cause.Changes, JobState.terminal]
  | cascaded _ fails alive =>
    cases cause <;> cases first <;> cases middle <;>
      simp_all [Cause.Changes, Cause.fails, JobState.leased, JobState.terminal]

namespace Policy

variable {policy : Policy}

def Allows (policy : Policy) (cause : Cause) : Prop :=
  ∀ id eventType state next, Edge cause id eventType state next →
    policy.edges id eventType state next

def Buries (policy : Policy) : Prop :=
  ∀ id state, state.terminal = false → policy.edges id .upstreamFailed state .deadLetter

theorem Allows.buries (h : policy.Allows cause) (fails : cause.fails = true) : policy.Buries :=
  fun id _ alive => h id _ _ _ (.cascaded id fails alive)

end Policy

theorem anyPolicy_allows (cause : Cause) : anyPolicy.Allows cause := fun _ _ _ _ _ => trivial

def Policy.Leads (policy : Policy) (id : String) : JobState → JobState → Prop :=
  ReflTransGen fun state next => ∃ eventType, policy.edges id eventType state next

theorem Policy.Leads.changes {policy : Policy} {cause : Cause} {id : String}
    (edges : ∀ eventType state next, policy.edges id eventType state next →
      Edge cause id eventType state next) (h : policy.Leads id state next) :
    next = state ∨ cause.Changes id state next := by
  induction h with
  | refl => exact .inl rfl
  | tail _ hlast ih =>
    obtain ⟨eventType, hedge⟩ := hlast
    exact (edges eventType _ _ hedge).changes_tail ih

theorem Micro.leads {id : String} (h : Micro policy yard yard')
    (hrow : yard.jobs.get? id = some row) (hrow' : yard'.jobs.get? id = some row') :
    policy.Leads id row.state row'.state := by
  have hsame : yard.jobs.get? id = some row' → policy.Leads id row.state row'.state := by
    intro hold
    rw [hrow, Option.some.injEq] at hold
    rw [hold]
    exact .refl
  cases h with
  | tenant => exact hsame hrow'
  | queue => exact hsame hrow'
  | heartbeat => exact hsame hrow'
  | note => exact hsame hrow'
  | admission batch valid =>
    rcases Batch.get?_apply_cases valid hrow' with ⟨_, hnone⟩ | ⟨_, hold⟩
    · rw [hrow] at hnone
      cases hnone
    · exact hsame hold
  | move move valid =>
    rcases Move.get?_apply_cases valid hrow' with ⟨rfl, rfl⟩ | ⟨_, hold⟩
    · rw [valid.found, Option.some.injEq] at hrow
      rw [← hrow]
      exact .single ⟨move.eventType, valid.edge⟩
    · exact hsame hold

theorem leads_of_micros {id : String} (h : ReflTransGen (Micro policy) yard yard')
    (hrow : yard.jobs.get? id = some row) (hrow' : yard'.jobs.get? id = some row') :
    policy.Leads id row.state row'.state := by
  induction h generalizing row' with
  | refl =>
    rw [hrow, Option.some.injEq] at hrow'
    rw [hrow']
    exact .refl
  | tail hfirst hlast ih =>
    obtain ⟨middle, hmiddle, _⟩ := (evolves_of_micros hfirst).jobs id row hrow
    exact (ih hmiddle).trans (hlast.leads hmiddle hrow')

end RailYard.Lifecycle
