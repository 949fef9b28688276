import RailYard.Domain.Job

/-! The state machine as it is declared. -/
namespace RailYard.Domain

def transitions : JobState → Option (List JobState)
  | .pending => some [.scheduled, .failed, .deadLetter]
  | .scheduled => some [.running, .retrying, .succeeded, .failed, .deadLetter]
  | .running => some [.retrying, .succeeded, .failed, .deadLetter]
  | .retrying => some [.pending, .scheduled, .deadLetter]
  | _ => none

def validateTransition (source target : JobState) : Except Error Unit :=
  match transitions source with
  | none => .error (.about "state %s is terminal or unknown" [stateText source])
  | some allowed =>
    if target ∈ allowed then .ok ()
    else .error (.about "transition %s to %s is not allowed" [stateText source, stateText target])

theorem validateTransition_ok :
    validateTransition source target = .ok () ↔ target ∈ (transitions source).getD [] := by
  unfold validateTransition
  cases transitions source with
  | none => simp
  | some allowed =>
    dsimp only
    split <;> simp [*]

end RailYard.Domain
