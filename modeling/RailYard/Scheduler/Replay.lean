import RailYard.Scheduler.Canonical
import RailYard.Scheduler.LogReader

/-! Replay of a decision log: every decision is made again from its recorded
input and compared with the recorded one byte for byte. -/
namespace RailYard.Scheduler
open Domain

def canonicalDecision (decision : Decision) : List UInt8 := utf8 decision.toJson.render ++ [10]

inductive ReplayError where
  | failed (error : Error)
  | divergence (sequence : Int) (offset : Nat) (expected actual : UInt8)
  deriving DecidableEq

structure ReplayResult where
  records : Nat
  digest : String
  deriving DecidableEq

def divergence (sequence : Int) (expected actual : List UInt8) : ReplayError :=
  let offset := ((expected.zip actual).takeWhile fun pair => pair.1 = pair.2).length
  .divergence sequence offset (expected.getD offset 0) (actual.getD offset 0)

/-- One turn of the loop over the records, with what has been written so far. -/
def replayRecord (output : List UInt8) (record : Record) : Except ReplayError (List UInt8) :=
  match decide record.input with
  | .error error =>
    .error (.failed (.wrapped ("recompute decision " ++ toString record.sequence) error))
  | .ok decision =>
    if canonicalDecision decision ≠ canonicalDecision record.decision then
      .error (divergence record.sequence (canonicalDecision record.decision)
        (canonicalDecision decision))
    else .ok (output ++ canonicalDecision decision)

def replay (decode : List UInt8 → Except Error Record) (sha256 : Hash) (input : List UInt8) :
    Except ReplayError (ReplayResult × List UInt8) :=
  match readAll decode sha256 input with
  | .error error => .error (.failed error)
  | .ok records =>
    match records.foldlM replayRecord [] with
    | .error error => .error error
    | .ok output => .ok (⟨records.length, hexEncode (sha256 output)⟩, output)

variable {record : Record}

theorem Entered.verify (h : Entered sha256 log input record) :
    record.verify sha256 (headHash log) = .ok () := by
  have hrecord := h.recordOf
  refine verify_ok_iff.mpr ⟨hrecord.schema, hrecord.chained, record, ?_, rfl⟩
  rw [hrecord.canonical, newRecord_canonicalSnapshot]
  exact h.recorded

theorem Committed.linked (h : Committed sha256 log) : Linked sha256 log := by
  intro earlier record later hsplit
  obtain ⟨_, input, hentered⟩ := h.entered hsplit
  exact ⟨hentered.record_sequence, hentered.verify⟩

theorem Entered.decide_input (h : Entered sha256 log input record) :
    decide record.input = .ok record.decision := by
  rw [h.recordOf.canonical, decide_canonicalSnapshot]
  exact h.decided

theorem foldlM_replayRecord {records : List Record} (output : List UInt8)
    (h : ∀ record ∈ records, decide record.input = .ok record.decision) :
    records.foldlM replayRecord output =
      .ok (output ++ records.flatMap fun record => canonicalDecision record.decision) := by
  induction records generalizing output with
  | nil => exact congrArg _ (List.append_nil output).symm
  | cons record records ih =>
    rw [List.forall_mem_cons] at h
    have hfirst : replayRecord output record = .ok (output ++ canonicalDecision record.decision) := by
      unfold replayRecord
      rw [h.1]
      exact if_neg (not_not.mpr rfl)
    rw [List.foldlM_cons, hfirst, List.flatMap_cons, ← List.append_assoc]
    exact ih _ h.2

def replayed (log : List Record) : List UInt8 :=
  log.flatMap fun record => canonicalDecision record.decision

theorem replay_of_readAll {decode : List UInt8 → Except Error Record}
    (committed : Committed sha256 log) (h : readAll decode sha256 stream = .ok log) :
    replay decode sha256 stream =
      .ok (⟨log.length, hexEncode (sha256 (replayed log))⟩, replayed log) := by
  have hall : ∀ record ∈ log, decide record.input = .ok record.decision := by
    intro record hmem
    obtain ⟨earlier, later, hsplit⟩ := List.append_of_mem hmem
    obtain ⟨_, input, hentered⟩ := committed.entered hsplit
    exact hentered.decide_input
  unfold replay
  rw [h]
  dsimp only
  rw [foldlM_replayRecord [] hall]
  rfl

end RailYard.Scheduler
