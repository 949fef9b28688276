import RailYard.Domain.Errors
import RailYard.Domain.Time

/-! Job specifications with their defaults and checks, and jobs as the API
returns them. -/
namespace RailYard.Domain

inductive JobState where
  | pending
  | scheduled
  | running
  | retrying
  | succeeded
  | failed
  | deadLetter
  deriving DecidableEq

namespace JobState

def terminal : JobState → Bool
  | .succeeded | .failed | .deadLetter => true
  | _ => false

def leased : JobState → Bool
  | .scheduled | .running => true
  | _ => false

def unsuccessful : JobState → Bool
  | .failed | .deadLetter => true
  | _ => false

theorem leased_iff {state : JobState} :
    state.leased = true ↔ state = .scheduled ∨ state = .running := by
  cases state <;> decide

theorem unsuccessful_iff {state : JobState} :
    state.unsuccessful = true ↔ state = .failed ∨ state = .deadLetter := by
  cases state <;> decide

theorem idle_iff {state : JobState} :
    state.terminal = false ∧ state.leased = false ↔ state = .pending ∨ state = .retrying := by
  cases state <;> decide

theorem terminal_iff {state : JobState} :
    state.terminal = true ↔ state = .succeeded ∨ state.unsuccessful = true := by
  cases state <;> decide

end JobState

def stateText : JobState → String
  | .pending => "PENDING"
  | .scheduled => "SCHEDULED"
  | .running => "RUNNING"
  | .retrying => "RETRYING"
  | .succeeded => "SUCCEEDED"
  | .failed => "FAILED"
  | .deadLetter => "DEAD_LETTER"

inductive PayloadType where
  | noop
  | shell
  | other (name : String)
  deriving DecidableEq

structure Payload where
  type : PayloadType
  durationMS : Int := 0
  args : List String := []
  deriving DecidableEq

def Payload.validate (payload : Payload) (allowShell : Bool) : Except Error Unit :=
  match payload.type with
  | .noop =>
    if payload.durationMS < 0 then .error (.text "duration_ms must not be negative") else .ok ()
  | .shell =>
    if !allowShell then .error (.text "shell jobs are disabled")
    else if payload.args.head?.getD "" = "" then
      .error (.text "shell payload requires a non-empty argv")
    else .ok ()
  | .other name => .error (.about "unsupported payload type %q" [name])

structure RetryPolicy where
  maxAttempts : Int
  retryable : Bool
  deriving DecidableEq

def RetryPolicy.normalized (policy : RetryPolicy) : RetryPolicy :=
  if policy.maxAttempts = 0 then ⟨5, true⟩ else policy

structure JobSpec where
  name : String := ""
  tenantID : String := ""
  queue : String := ""
  priority : Int := 0
  slotCost : Int := 0
  payload : Payload
  retry : RetryPolicy := ⟨0, false⟩
  dependsOn : List String := []
  availableAt : Time := zeroTime
  deriving DecidableEq

namespace JobSpec

def normalize (spec : JobSpec) : JobSpec :=
  { spec with
    tenantID := if spec.tenantID = "" then "default" else spec.tenantID
    queue := if spec.queue = "" then "default" else spec.queue
    slotCost := if spec.slotCost = 0 then 1 else spec.slotCost
    retry := spec.retry.normalized }

def validate (spec : JobSpec) (maxSlotCost : Int) (allowShell : Bool) : Except Error Unit :=
  let spec := spec.normalize
  if spec.slotCost < 1 then .error (.text "slot_cost must be positive")
  else if spec.slotCost > maxSlotCost then
    .error (.text ("slot_cost " ++ toString spec.slotCost ++ " exceeds cluster maximum " ++
      toString maxSlotCost))
  else if spec.retry.maxAttempts < 1 || spec.retry.maxAttempts > 100 then
    .error (.text "max_attempts must be between 1 and 100")
  else spec.payload.validate allowShell

@[simp] theorem normalize_normalize (spec : JobSpec) :
    spec.normalize.normalize = spec.normalize := by
  have hretry : spec.retry.normalized.normalized = spec.retry.normalized := by
    unfold RetryPolicy.normalized
    by_cases hmax : spec.retry.maxAttempts = 0
    · simp [hmax]
    · simp [hmax]
  unfold normalize
  simp only [hretry, JobSpec.mk.injEq, true_and, and_true]
  refine ⟨?_, ?_, ?_⟩
  · by_cases h : spec.tenantID = "" <;> simp [h]
  · by_cases h : spec.queue = "" <;> simp [h]
  · by_cases h : spec.slotCost = 0 <;> simp [h]

theorem maxAttempts_of_validate {spec : JobSpec} (h : spec.validate maxSlotCost allowShell = .ok ())
    :
    1 ≤ spec.normalize.retry.maxAttempts ∧ spec.normalize.retry.maxAttempts ≤ 100 := by
  unfold validate at h
  dsimp only at h
  split at h
  · cases h
  · split at h
    · cases h
    · split at h
      · cases h
      · rename_i hrange
        simp only [Bool.or_eq_true, decide_eq_true_eq, not_or, not_lt] at hrange
        exact hrange

end JobSpec

structure Failure where
  failureClass : String
  message : String
  exitCode : Int := 0
  outputDigest : String := ""
  stderr : String := ""
  deriving DecidableEq

structure Job where
  id : String
  tenantID : String
  queue : String
  priority : Int
  slotCost : Int
  payload : Payload
  retry : RetryPolicy
  state : JobState
  attemptNo : Int
  stateVersion : Int
  leaseGeneration : Int
  availableAt : Time
  readySeq : Int
  createdAt : Time
  updatedAt : Time
  terminalAt : Option Time := none
  failure : Option Failure := none
  deriving DecidableEq

/-- A cron trigger; its own specification is submitted at every occurrence. -/
structure CronTrigger where
  id : String
  tenantID : String
  expression : String
  job : JobSpec
  nextFireAt : Time
  enabled : Bool
  createdAt : Time
  updatedAt : Time
  deriving DecidableEq

end RailYard.Domain
