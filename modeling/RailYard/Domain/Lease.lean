import RailYard.Library.JsonReader
import RailYard.Domain.Digest
import RailYard.Domain.Job

/-! Leases, the calls that refer to them, and the digest that identifies a
completion body. -/
namespace RailYard.Domain
open Library

structure Lease where
  jobID : String
  attemptNo : Int
  generation : Int
  token : String
  workerID : String
  expiresAt : Time
  readyAt : Time
  idempotencyKey : String
  slotCost : Int
  payload : Payload
  deriving DecidableEq

structure LeaseRef where
  jobID : String
  attemptNo : Int
  generation : Int
  token : String
  deriving DecidableEq

structure Completion extends LeaseRef where
  workerID : String
  success : Bool
  retryable : Bool
  outputDigest : String
  failure : Option Failure := none
  deriving DecidableEq

structure CompletionReceipt where
  jobID : String
  state : JobState
  stateVersion : Int
  committedAt : Time
  duplicate : Bool := false
  deriving DecidableEq

structure HeartbeatResult where
  jobID : String
  accepted : Bool
  expiresAt : Time
  deriving DecidableEq

structure ReapedLease where
  jobID : String
  oldWorkerID : String
  generation : Int
  expiredAt : Time
  nextAvailableAt : Time
  deriving DecidableEq

/-- Fields that `omitempty` drops. -/
def optionalNumber (name : String) (value : Int) : List (String × Json) :=
  if value = 0 then [] else [(name, .number value)]

def optionalText (name : String) (value : String) : List (String × Json) :=
  if value = "" then [] else [(name, .text value)]

def Failure.toJson (failure : Failure) : Json :=
  .object ([("class", .text failure.failureClass), ("message", .text failure.message)] ++
    optionalNumber "exit_code" failure.exitCode ++
    optionalText "output_digest" failure.outputDigest ++
    optionalText "stderr" failure.stderr)

def Completion.toJson (completion : Completion) : Json :=
  .object ([("job_id", .text completion.jobID),
    ("attempt_no", .number completion.attemptNo),
    ("generation", .number completion.generation),
    ("token", .text completion.token),
    ("worker_id", .text completion.workerID),
    ("success", .bool completion.success),
    ("retryable", .bool completion.retryable),
    ("output_digest", .text completion.outputDigest)] ++
    match completion.failure with
    | some failure => [("failure", failure.toJson)]
    | none => [])

def completionDigest (sha256 : Hash) (completion : Completion) : String :=
  hexDigest sha256 completion.toJson.render

theorem Failure.toJson_injective : Function.Injective Failure.toJson := by
  intro first second h
  obtain ⟨failureClass, message, exitCode, outputDigest, stderr⟩ := first
  obtain ⟨failureClass', message', exitCode', outputDigest', stderr'⟩ := second
  simp only [Failure.toJson, optionalNumber, optionalText] at h
  split_ifs at h <;> simp_all

theorem Completion.toJson_injective : Function.Injective Completion.toJson := by
  intro first second h
  obtain ⟨⟨jobID, attemptNo, generation, token⟩, workerID, success, retryable, output, failure⟩ :=
    first
  obtain ⟨⟨jobID', attemptNo', generation', token'⟩, workerID', success', retryable', output',
    failure'⟩ := second
  cases failure <;> cases failure' <;>
    simp_all [Completion.toJson, Failure.toJson_injective.eq_iff]

theorem completionDigest_injective (h : Function.Injective sha256) :
    Function.Injective (completionDigest sha256) :=
  (hexDigest_injective h).comp (JsonReader.render_injective.comp Completion.toJson_injective)

end RailYard.Domain
