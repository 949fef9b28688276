import Mathlib.Data.List.Basic

/-! Errors as the callers tell them apart: the sentinels by identity, all
others by their message. A message that quotes values keeps the format and the
values apart. -/
namespace RailYard.Domain

inductive Error where
  | notFound
  | queueFull
  | idempotencyConflict
  | cycleDetected
  | staleLease
  | terminalJob
  | deadLetterRedriven
  | conflict
  | workerCapacityConflict
  | text (message : String)
  | about (message : String) (subjects : List String)
  | constraint (table : String)
  | wrapped (context : String) (cause : Error) (subjects : List String := [])
  deriving DecidableEq

namespace Error

/-- `errors.Is`: the error itself or one it wraps. -/
def is (target : Error) : Error → Bool
  | .wrapped context cause subjects =>
    Error.wrapped context cause subjects = target || is target cause
  | error => error = target

end Error

end RailYard.Domain
