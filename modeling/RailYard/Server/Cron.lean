import RailYard.Store.System

/-! Calls of `FireDueCron` that overlap. A call reads the due triggers once and
then makes two transactions for each of them, a submission and the record of the
occurrence; between any two transactions other calls go on, and a crash ends a
call at any point. -/
namespace RailYard.Server
open Domain Store

/-- A call on its way through the triggers it has read. Once the job of the first
of them is submitted, its ID and the trigger's next time are at hand. -/
structure Firing where
  now : Time
  due : List (String × CronRow)
  submitted : Option (String × Time) := none

structure Yield where
  triggerID : String
  nominal : Time
  firedAt : Time
  jobID : String
  duplicate : Bool
  deriving DecidableEq

structure CronState where
  store : StoreState
  firings : List Firing := []
  yields : List Yield := []

def CronState.put (state : CronState) (store : StoreState) (index : Nat) (firing : Firing) :
    CronState :=
  { state with store := store, firings := state.firings.set index firing }

/-- The first transaction of a turn. An expression that no longer parses ends the
call after it. -/
def submitDue (env : Env) (state : CronState) (index : Nat) (elapsed : Int) (entropy : Entropy) :
    CronState :=
  match state.firings[index]? with
  | some ⟨now, entry :: rest, none⟩ =>
    match state.store.perform ⟨now, elapsed⟩
        (submitJob state.store.options (cronSubmission env.sha256 entry) entropy) with
    | (.error _, failed) => state.put failed index ⟨now, [], none⟩
    | (.ok (job, duplicate), submitted) =>
      let firing := match env.schedule entry.2.expression with
        | .error _ => ⟨now, [], none⟩
        | .ok next => ⟨now, entry :: rest, some (job.id, next now)⟩
      { state.put submitted index firing with
        yields := state.yields ++
          [⟨entry.1, timeFromDB entry.2.nextFireAt, now, job.id, duplicate⟩] }
  | _ => state

def recordDue (state : CronState) (index : Nat) : CronState :=
  match state.firings[index]? with
  | some ⟨now, entry :: rest, some (jobID, next)⟩ =>
    match state.store.transact
        (recordOccurrence entry.1 (timeFromDB entry.2.nextFireAt) jobID next now) with
    | (.error _, failed) => state.put failed index ⟨now, [], none⟩
    | (.ok _, recorded) => state.put recorded index ⟨now, rest, none⟩
  | _ => state

inductive CronEvent where
  /-- Any other call on the store. -/
  | call (call : Call)
  /-- A call of `FireDueCron` begins. -/
  | fire (now : Time) (limit : Int)
  | submit (index : Nat) (elapsed : Int) (entropy : Entropy)
  | record (index : Nat)
  | crash (index : Nat)

/-- Occurrences are recorded by the calls of `FireDueCron` only. -/
def recordsOccurrence : Op → Bool
  | .recordOccurrence .. => true
  | _ => false

def CronState.advance (env : Env) (state : CronState) : CronEvent → CronState
  | .call call =>
    if recordsOccurrence call.op then state
    else { state with store := (step env state.store call).2 }
  | .fire now limit =>
    { state with firings := state.firings ++ [⟨now, dueTriggers state.store.db now limit, none⟩] }
  | .submit index elapsed entropy => submitDue env state index elapsed entropy
  | .record index => recordDue state index
  | .crash index =>
    { state with firings := state.firings.modify index fun firing => ⟨firing.now, [], none⟩ }

def CronState.run (env : Env) (state : CronState) (events : List CronEvent) : CronState :=
  events.foldl (CronState.advance env) state

/-- The events while no other call of `FireDueCron` is on its way. -/
def CronEvent.alone (index : Nat) : CronEvent → Bool
  | .call _ => true
  | .submit other _ _ => other = index
  | .record other => other = index
  | .fire .. | .crash _ => false

def fireTurns (index : Nat) (elapsed : Nat → Int) (entropy : Nat → Entropy) :
    Nat → Nat → List CronEvent
  | _, 0 => []
  | turn, count + 1 =>
    .submit index (elapsed turn) (entropy turn) :: .record index ::
      fireTurns index elapsed entropy (turn + 1) count

end RailYard.Server
