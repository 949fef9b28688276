import RailYard.Store.System

/-! The server in front of the store, as its workers see it: registration and
the long poll for leases. The server remembers registered capacities only in
memory, so a restart forgets them; the slots that a worker reports as available
are checked against that capacity and against nothing else. -/
namespace RailYard.Server
open Domain Store

/-- The limits that the handlers read; a server with other durations does not
start. -/
structure Config where
  leaseTTL : Int
  maxWorkerSlots : Int
  maxLeaseBatch : Int
  leaseTTLPositive : 0 < leaseTTL

inductive HttpError where
  | invalidRequest (message : String)
  | notFound (message : String)
  | workerConflict (message : String)
  | store (error : Error)
  deriving DecidableEq

/-- `strings.TrimSpace` changes nothing. -/
def trimmed (text : String) : Bool :=
  (text.toList.head?.all fun char => !isSpace char) &&
    text.toList.getLast?.all fun char => !isSpace char

def isControl (char : Char) : Bool := char.toNat < 0x20 || char.toNat = 0x7f

def validateIdentifier (name value : String) (maxBytes : Nat) : Except String Unit :=
  if blank value then .error (name ++ " is required")
  else if trimmed value = false then
    .error (name ++ " must not have leading or trailing whitespace")
  else if maxBytes < value.utf8ByteSize then
    .error (name ++ " exceeds " ++ toString maxBytes ++ " bytes")
  else if value.toList.any isControl then .error (name ++ " contains a control character")
  else .ok ()

def isWorkerIDCharacter (char : Char) : Bool :=
  ('a' ≤ char && char ≤ 'z') || ('A' ≤ char && char ≤ 'Z') || ('0' ≤ char && char ≤ '9') ||
    char = '-' || char = '_' || char = '.'

def validateWorkerID (workerID : String) : Except String Unit :=
  match validateIdentifier "worker_id" workerID 128 with
  | .error message => .error message
  | .ok () =>
    if workerID.toList.all isWorkerIDCharacter then .ok ()
    else .error "worker_id contains an unsupported character"

/-- A request for leases that has passed the checks and polls the store. -/
structure LongPoll where
  workerID : String
  slots : Int
  availableSlots : Int
  limit : Int
  deriving DecidableEq

structure ServerState where
  store : StoreState
  workers : String → Option Int
  waiting : List LongPoll

def start (store : StoreState) : ServerState := ⟨store, fun _ => none, []⟩

def registeredWorker (server : ServerState) (workerID : String) : Except HttpError Int :=
  match validateWorkerID workerID with
  | .error message => .error (.invalidRequest message)
  | .ok () =>
    match server.workers workerID with
    | none => .error (.notFound "worker is not registered")
    | some slots => .ok slots

def handleRegisterWorker (env : Env) (config : Config) (server : ServerState)
    (workerID : String) (slots : Int) (reading : Reading) : Except HttpError Unit × ServerState :=
  match validateWorkerID workerID with
  | .error message => (.error (.invalidRequest message), server)
  | .ok () =>
    if slots < 1 ∨ config.maxWorkerSlots < slots then
      (.error (.invalidRequest ("slots must be between 1 and " ++
        toString config.maxWorkerSlots)), server)
    else
      match step env server.store ⟨.registerWorker workerID slots, reading⟩ with
      | (.error error, store) =>
        (.error (if Error.is .workerCapacityConflict error then
          .workerConflict "worker is already registered with a different slot capacity"
          else .store error), { server with store := store })
      | (.ok _, store) =>
        (.ok (), { server with
          store := store
          workers := Function.update server.workers workerID (some slots) })

/-- The checks with which `handleAcquire` begins. -/
def beginAcquire (config : Config) (server : ServerState) (workerID : String)
    (availableSlots limit : Int) : Except HttpError LongPoll :=
  match registeredWorker server workerID with
  | .error error => .error error
  | .ok slots =>
    if availableSlots < 1 ∨ slots < availableSlots then
      .error (.invalidRequest ("available_slots must be between 1 and the registered capacity of "
        ++ toString slots))
    else if limit < 1 ∨ config.maxLeaseBatch < limit then
      .error (.invalidRequest ("limit must be between 1 and " ++ toString config.maxLeaseBatch))
    else .ok ⟨workerID, slots, availableSlots, limit⟩

def recoveryReserve (workerSlots : Int) : Int :=
  if workerSlots ≤ 1 then 0 else (workerSlots + 3) / 4

def LongPoll.request (config : Config) (waiting : LongPoll) : AcquireRequest where
  workerID := waiting.workerID
  availableSlots := waiting.availableSlots
  limit := waiting.limit
  leaseTTL := config.leaseTTL
  recoveryReserve := recoveryReserve waiting.slots

/-- When a turn of the polling loop reads the clock, and the tokens it draws. -/
structure PollTurn where
  reading : Reading
  tokens : Nat → Entropy

/-- One turn of the loop in `handleAcquire`. -/
def poll (env : Env) (config : Config) (server : ServerState) (waiting : LongPoll) (turn : PollTurn) :
    Except HttpError (List Lease) × ServerState :=
  match step env server.store ⟨.acquire (waiting.request config) turn.tokens, turn.reading⟩ with
  | (.error error, store) => (.error (.store error), { server with store := store })
  | (.ok (.leases leases), store) => (.ok leases, { server with store := store })
  | (.ok _, store) => (.ok [], { server with store := store })

/-- The loop up to the first leases or error, or until the timer has run down. -/
def pollLoop (env : Env) (config : Config) (waiting : LongPoll) (server : ServerState) :
    List PollTurn → Except HttpError (List Lease) × ServerState
  | [] => (.ok [], server)
  | turn :: rest =>
    match poll env config server waiting turn with
    | (.ok [], polled) => pollLoop env config waiting polled rest
    | answered => answered

def handleAcquire (env : Env) (config : Config) (server : ServerState) (workerID : String)
    (availableSlots limit : Int) (turns : List PollTurn) :
    Except HttpError (List Lease) × ServerState :=
  match beginAcquire config server workerID availableSlots limit with
  | .error error => (.error error, server)
  | .ok waiting => pollLoop env config waiting server turns

/-- Registrations, calls for leases and restarts go through the server. -/
def passesThrough : Activity → Bool
  | .call ⟨.registerWorker .., _⟩ | .call ⟨.acquire .., _⟩ | .call ⟨.reopen .., _⟩ => false
  | _ => true

/-- What happens to a server, one transaction at a time: the turns of several
waiting requests can follow each other in any order. Whether an answer reaches
its worker makes no difference to the server. -/
inductive Event where
  | registerWorker (workerID : String) (slots : Int) (reading : Reading)
  | acquire (workerID : String) (availableSlots limit : Int)
  | poll (index : Nat) (turn : PollTurn)
  | leave (index : Nat)
  | other (activity : Activity) (through : passesThrough activity = true)
  | restart (options : Options)

def advance (env : Env) (config : Config) (server : ServerState) : Event → ServerState
  | .registerWorker workerID slots reading =>
    (handleRegisterWorker env config server workerID slots reading).2
  | .acquire workerID availableSlots limit =>
    match beginAcquire config server workerID availableSlots limit with
    | .error _ => server
    | .ok waiting => { server with waiting := server.waiting ++ [waiting] }
  | .poll index turn =>
    match server.waiting[index]? with
    | none => server
    | some waiting =>
      match poll env config server waiting turn with
      | (.ok [], polled) => polled
      | (_, polled) => { polled with waiting := server.waiting.eraseIdx index }
  | .leave index => { server with waiting := server.waiting.eraseIdx index }
  | .other activity _ => { server with store := Store.advance env server.store activity }
  | .restart options => start (openStore options server.store.db)

def run (env : Env) (config : Config) (server : ServerState) (events : List Event) : ServerState :=
  events.foldl (advance env config) server

end RailYard.Server
