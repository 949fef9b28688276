import RailYard.Store.System

/-! The consumers of a Redis stream. A message is delivered by two transactions and
then acknowledged; first the consumer as one process, and then any number of them
that overlap and may crash between any two of these steps. -/
namespace RailYard.Server
open Domain Store

/-- A message of a stream, of whose values `DeliverRedis` reads the job. -/
structure XMessage where
  id : String
  job : RedisValue

def XMessage.delivery (message : XMessage) (triggerID stream : String) : RedisDelivery :=
  ⟨triggerID, stream, message.id, message.job⟩

section Consumer

/-- What one turn of the loop meets: the clock, random bytes, and whether `XACK`
succeeds. -/
structure MessageTurn where
  now : Time
  elapsed : Int
  entropy : Entropy
  acknowledged : Bool

/-- What the loop leaves: the store, the messages acknowledged, and the error that
ended it. -/
structure Handled where
  store : StoreState
  acknowledged : List String
  error : Option Error

def handleMessages (env : Env) (triggerID stream : String) (turn : Nat → MessageTurn) (index : Nat)
    (store : StoreState) : List XMessage → Handled
  | [] => ⟨store, [], none⟩
  | message :: rest =>
    match deliverRedis env store (message.delivery triggerID stream) (turn index).now
        (turn index).elapsed (turn index).entropy with
    | (.error error, failed) =>
      ⟨failed, [], some (.wrapped "persist Redis delivery %s" error [message.id])⟩
    | (.ok _, delivered) =>
      if (turn index).acknowledged then
        let later := handleMessages env triggerID stream turn (index + 1) delivered rest
        { later with acknowledged := message.id :: later.acknowledged }
      else ⟨delivered, [], some (.about "acknowledge Redis delivery %s" [message.id])⟩

end Consumer

section Overlap

inductive Stage where
  | received
  | submitted (jobID : String) (now : Time)
  | delivered

/-- A batch of messages that a consumer has received, by a read or a claim. -/
structure Handling where
  triggerID : String
  stream : String
  messages : List XMessage
  stage : Stage := .received

structure Receipt where
  entry : String × String × String
  jobID : String
  duplicate : Bool
  deriving DecidableEq

structure RedisState where
  store : StoreState
  handlings : List Handling := []
  receipts : List Receipt := []
  /-- The entries for which `XACK` was issued. -/
  acks : List (String × String × String) := []

def RedisState.put (state : RedisState) (store : StoreState) (index : Nat) (handling : Handling) :
    RedisState :=
  { state with store := store, handlings := state.handlings.set index handling }

/-- An error ends the call of `handleMessages`. -/
def Handling.stop (handling : Handling) : Handling :=
  { handling with messages := [], stage := .received }

/-- The submission of `DeliverRedis`. -/
def submitMessage (env : Env) (state : RedisState) (index : Nat) (now : Time) (elapsed : Int)
    (entropy : Entropy) : RedisState :=
  match state.handlings[index]? with
  | some ⟨triggerID, stream, message :: rest, .received⟩ =>
    let handling : Handling := ⟨triggerID, stream, message :: rest, .received⟩
    match redisSubmission env (message.delivery triggerID stream) with
    | .error _ => state.put state.store index handling.stop
    | .ok submission =>
      match state.store.perform ⟨now, elapsed⟩
          (submitJob state.store.options submission entropy) with
      | (.error _, failed) => state.put failed index handling.stop
      | (.ok (job, duplicate), submitted) =>
        { state.put submitted index { handling with stage := .submitted job.id now } with
          receipts := state.receipts ++ [⟨(triggerID, stream, message.id), job.id, duplicate⟩] }
  | _ => state

/-- The second transaction of `DeliverRedis`. -/
def recordMessage (state : RedisState) (index : Nat) : RedisState :=
  match state.handlings[index]? with
  | some ⟨triggerID, stream, message :: rest, .submitted jobID now⟩ =>
    let handling : Handling := ⟨triggerID, stream, message :: rest, .submitted jobID now⟩
    match state.store.transact (recordDelivery triggerID stream message.id jobID now) with
    | (.error _, failed) => state.put failed index handling.stop
    | (.ok _, recorded) => state.put recorded index { handling with stage := .delivered }
  | _ => state

/-- `XACK`, which may fail after it was issued. -/
def acknowledgeMessage (state : RedisState) (index : Nat) (answered : Bool) : RedisState :=
  match state.handlings[index]? with
  | some ⟨triggerID, stream, message :: rest, .delivered⟩ =>
    let handling : Handling := ⟨triggerID, stream, rest, .received⟩
    { state.put state.store index (if answered then handling else handling.stop) with
      acks := state.acks ++ [(triggerID, stream, message.id)] }
  | _ => state

inductive RedisEvent where
  /-- Any other call on the store. -/
  | call (call : Call)
  /-- A consumer receives entries of a stream, for the first time or again. -/
  | receive (triggerID stream : String) (ids : List String)
  | submit (index : Nat) (now : Time) (elapsed : Int) (entropy : Entropy)
  | record (index : Nat)
  | acknowledge (index : Nat) (answered : Bool)
  | crash (index : Nat)

/-- Deliveries are recorded by `DeliverRedis` only. -/
def recordsDelivery : Op → Bool
  | .recordDelivery .. => true
  | _ => false

def RedisState.advance (env : Env) (contents : String → String → RedisValue)
    (state : RedisState) : RedisEvent → RedisState
  | .call call =>
    if recordsDelivery call.op then state
    else { state with store := (step env state.store call).2 }
  | .receive triggerID stream ids =>
    { state with
      handlings := state.handlings ++
        [⟨triggerID, stream, ids.map fun id => ⟨id, contents stream id⟩, .received⟩] }
  | .submit index now elapsed entropy => submitMessage env state index now elapsed entropy
  | .record index => recordMessage state index
  | .acknowledge index answered => acknowledgeMessage state index answered
  | .crash index => { state with handlings := state.handlings.modify index Handling.stop }

def RedisState.run (env : Env) (contents : String → String → RedisValue) (state : RedisState)
    (events : List RedisEvent) : RedisState :=
  events.foldl (RedisState.advance env contents) state

def messageTurns (index : Nat) (turn : Nat → MessageTurn) : Nat → Nat → List RedisEvent
  | _, 0 => []
  | number, count + 1 =>
    .submit index (turn number).now (turn number).elapsed (turn number).entropy ::
      .record index :: .acknowledge index (turn number).acknowledged ::
      messageTurns index turn (number + 1) count

end Overlap

end RailYard.Server
