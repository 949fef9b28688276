import Mathlib.Algebra.Order.Ring.Int

/-! Instants and their two texts: the integer a database column holds and the
RFC 3339 form that JSON and the trigger keys use. -/
namespace RailYard.Domain

abbrev Time := Int

def second : Int := 1000000000

/-- The zero `time.Time`: midnight of January 1 of year 1. -/
def zeroTime : Time := -62135596800 * second

def int64 (value : Int) : Int := Int.bmod value (2 ^ 64)

theorem int64_int64 (value : Int) : int64 (int64 value) = int64 value := Int.bmod_bmod

/-- `UnixNano` is defined modulo 2^64, so far instants wrap around. -/
def timeToDB (value : Time) : Int := int64 value

def timeFromDB (value : Int) : Time := value

def encodableTime (value : Time) : Bool :=
  -62167219200 * second ≤ value && value < 253402300800 * second

def padLeft (width : Nat) (value : Nat) : String :=
  let digits := toString value
  String.ofList (List.replicate (width - digits.length) '0') ++ digits

/-- Year, month and day of a day number counted from the epoch, in the
proleptic Gregorian calendar. The year starts in March internally, which puts
the leap day last. -/
def civilFromDays (days : Int) : Int × Nat × Nat :=
  let shifted := days + 719468
  let era := shifted / 146097
  let dayOfEra := (shifted % 146097).toNat
  let yearOfEra :=
    (dayOfEra - dayOfEra / 1460 + dayOfEra / 36524 - dayOfEra / 146096) / 365
  let dayOfYear := dayOfEra - (365 * yearOfEra + yearOfEra / 4 - yearOfEra / 100)
  let shiftedMonth := (5 * dayOfYear + 2) / 153
  let day := dayOfYear - (153 * shiftedMonth + 2) / 5 + 1
  let month := if shiftedMonth < 10 then shiftedMonth + 3 else shiftedMonth - 9
  let year := (yearOfEra : Int) + era * 400 + (if month ≤ 2 then 1 else 0)
  (year, month, day)

/-- Fractional seconds without trailing zeros, and none at all when they vanish. -/
def fraction (nanoseconds : Nat) : String :=
  if nanoseconds = 0 then ""
  else "." ++ String.ofList
    ((padLeft 9 nanoseconds).toList.reverse.dropWhile (· = '0')).reverse

def formatRFC3339Nano (value : Time) : String :=
  let seconds := value / second
  let (year, month, day) := civilFromDays (seconds / 86400)
  let clock := (seconds % 86400).toNat
  padLeft 4 year.toNat ++ "-" ++ padLeft 2 month ++ "-" ++ padLeft 2 day ++ "T" ++
    padLeft 2 (clock / 3600) ++ ":" ++ padLeft 2 (clock / 60 % 60) ++ ":" ++
    padLeft 2 (clock % 60) ++ fraction (value % second).toNat ++ "Z"

example : formatRFC3339Nano 1767362400500000000 = "2026-01-02T14:00:00.5Z" := by decide +kernel

end RailYard.Domain
