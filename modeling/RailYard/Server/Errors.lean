import RailYard.Domain.Errors

/-! What a client learns of an error of the store. -/
namespace RailYard.Server
open Domain

structure ErrorResponse where
  status : Nat
  code : String
  message : String
  retryAfter : Nat
  deriving DecidableEq

def internalError : ErrorResponse :=
  ⟨500, "internal_error", "internal server error", 0⟩

/-- The answers to known errors, in the order in which they are tried. Deadlines
and cancelled requests are not errors of the store. -/
def mappedErrors : List (Error × ErrorResponse) :=
  [(.notFound, ⟨404, "not_found", "resource not found", 0⟩),
    (.queueFull, ⟨429, "queue_full", "tenant queue is full", 1⟩),
    (.idempotencyConflict, ⟨409, "idempotency_conflict",
      "idempotency key conflicts with an existing request", 0⟩),
    (.cycleDetected, ⟨409, "cycle_detected", "workflow contains a dependency cycle", 0⟩),
    (.staleLease, ⟨409, "stale_lease", "lease is stale", 0⟩),
    (.terminalJob, ⟨409, "terminal_job", "job is already terminal", 0⟩),
    (.deadLetterRedriven, ⟨409, "dead_letter_redriven", "dead letter was already redriven", 0⟩)]

def mapStoreError (error : Error) : ErrorResponse :=
  match mappedErrors.find? fun entry => Error.is entry.1 error with
  | some entry => entry.2
  | none => internalError

end RailYard.Server
