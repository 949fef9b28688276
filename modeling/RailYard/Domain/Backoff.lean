import RailYard.Domain.Digest
import RailYard.Domain.Errors

/-! The deterministic retry delay: a cap per attempt, scaled by a jitter drawn
from the hash of the job and the attempt. -/
namespace RailYard.Domain

def caps : List Int := [2 * second, 4 * second, 8 * second, 16 * second]

def bigEndian64 (value : Int) : List UInt8 :=
  (List.range 8).reverse.map fun index =>
    UInt8.ofNat ((value % 2 ^ 64).toNat / 2 ^ (8 * index))

def uint16 (bytes : List UInt8) : Nat :=
  (bytes.getD 0 0).toNat * 256 + (bytes.getD 1 0).toNat

def basisPoints (sha256 : Hash) (jobID : String) (failedAttempt : Int) : Int :=
  8000 + (uint16 (sha256 (utf8 jobID ++ [0] ++ bigEndian64 failedAttempt)) % 2001 : Nat)

def delay (sha256 : Hash) (jobID : String) (failedAttempt : Int) : Except Error Int :=
  if jobID = "" then .error (.text "job ID is required")
  else if failedAttempt < 1 then .error (.text "failed attempt must be positive")
  else
    let index := min (failedAttempt - 1).toNat (caps.length - 1)
    .ok (caps.getD index 0 * basisPoints sha256 jobID failedAttempt / 10000)

def releaseAt (sha256 : Hash) (now : Time) (jobID : String) (failedAttempt : Int) :
    Except Error Time :=
  match delay sha256 jobID failedAttempt with
  | .ok value => .ok (now + value)
  | .error error => .error error

end RailYard.Domain
