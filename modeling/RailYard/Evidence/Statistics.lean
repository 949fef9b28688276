import Mathlib.Data.List.Sort
import RailYard.Domain.Errors

/-! Percentiles of measured durations. -/
namespace RailYard.Evidence
open Domain

def nearestRank (samples : List Int) (percentile : Int) : Except Error Int :=
  if samples = [] then .error (.text "nearest rank requires at least one sample")
  else if percentile < 1 ∨ 100 < percentile then
    .error (.about "percentile must be between 1 and 100, got %d" [toString percentile])
  else
    let ordered := samples.insertionSort (· ≤ ·)
    let rank := (percentile * ordered.length + 99) / 100
    match ordered[(rank - 1).toNat]? with
    | some duration => .ok duration
    -- An index out of range panics.
    | none => .error (.text "index out of range")

end RailYard.Evidence
