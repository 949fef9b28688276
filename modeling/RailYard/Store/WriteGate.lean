import Mathlib.Data.Fintype.Card

/-! The gate in front of every write. One event is one hold of its mutex: `lock`
up to its first `Wait` or its end, the same from a wake-up on, and `unlock`, whose
broadcast wakes everyone who sleeps. -/
namespace RailYard.Store

structure WriteGate where
  active : Bool
  waiters : Fin 3 → Int

def newWriteGate : WriteGate := ⟨false, fun _ => 0⟩

def WriteGate.hasHigherWaiter (gate : WriteGate) (priority : Fin 3) : Bool :=
  (List.finRange 3).any fun candidate => priority < candidate && 0 < gate.waiters candidate

/-- Where a goroutine is: a waiter has entered `lock` and sleeps in `Wait`, or runs. -/
inductive GatePhase where
  | outside
  | asleep (priority : Fin 3)
  | woken (priority : Fin 3)
  | holding
  deriving DecidableEq

namespace GatePhase

def waits (phase : GatePhase) (priority : Fin 3) : Bool :=
  phase = .asleep priority || phase = .woken priority

def wake : GatePhase → GatePhase
  | .asleep priority => .woken priority
  | phase => phase

end GatePhase

structure Writers (ι : Type) where
  gate : WriteGate
  phase : ι → GatePhase

inductive GateEvent (ι : Type) where
  | lock (writer : ι) (priority : Fin 3)
  | resume (writer : ι)
  | unlock (writer : ι)

namespace Writers

variable {ι : Type} [DecidableEq ι]

def start : Writers ι := ⟨newWriteGate, fun _ => .outside⟩

/-- `gate.waiters[priority]++` -/
def arrive (state : Writers ι) (writer : ι) (priority : Fin 3) : Writers ι where
  gate := { state.gate with
    waiters := Function.update state.gate.waiters priority (state.gate.waiters priority + 1) }
  phase := Function.update state.phase writer (.woken priority)

/-- The condition of the loop: `Wait`, or leave the loop and take the gate. -/
def attempt (state : Writers ι) (writer : ι) (priority : Fin 3) : Writers ι :=
  if state.gate.active || state.gate.hasHigherWaiter priority then
    { state with phase := Function.update state.phase writer (.asleep priority) }
  else
    { gate := {
        active := true
        waiters := Function.update state.gate.waiters priority (state.gate.waiters priority - 1) }
      phase := Function.update state.phase writer .holding }

def release (state : Writers ι) (writer : ι) : Writers ι where
  gate := { state.gate with active := false }
  phase := fun other => (Function.update state.phase writer .outside other).wake

def advance (state : Writers ι) : GateEvent ι → Writers ι
  | .lock writer priority =>
    match state.phase writer with
    | .outside => (state.arrive writer priority).attempt writer priority
    | _ => state
  | .resume writer =>
    match state.phase writer with
    | .woken priority => state.attempt writer priority
    | _ => state
  | .unlock writer =>
    match state.phase writer with
    | .holding => state.release writer
    | _ => state

def run (events : List (GateEvent ι)) : Writers ι := events.foldl advance start

end Writers

end RailYard.Store
