import RailYard.Domain.Errors
import Mathlib.Data.List.Sort
import Mathlib.Data.String.Basic

/-! The deficit round robin scheduler. Queues are visited in (tenant, name)
order from the cursor on; every visit of a nonempty queue pays one quantum
into its deficit and serves the queue from its head while the deficit, the
worker's slots and the batch limit allow. -/
namespace RailYard.Scheduler
open Domain

def algorithmVersion : String := "drr-v1"

structure Candidate where
  jobID : String
  tenantID : String
  queue : String
  priority : Int
  readySeq : Int
  slotCost : Int
  recovery : Bool
  deriving DecidableEq

structure Queue where
  tenantID : String
  name : String
  weight : Int
  deficit : Int
  candidates : List Candidate
  deriving DecidableEq

structure Snapshot where
  sequence : Int
  logicalTimeNS : Int
  workerSlots : Int
  batchLimit : Int
  cursor : Int
  queues : List Queue
  configHash : String
  algorithm : String
  deriving DecidableEq

structure Grant where
  jobID : String
  tenantID : String
  queue : String
  slotCost : Int
  deriving DecidableEq

structure QueueState where
  tenantID : String
  queue : String
  deficit : Int
  deriving DecidableEq

structure Decision where
  sequence : Int
  grants : List Grant
  queues : List QueueState
  nextCursor : Int
  deriving DecidableEq

def candidateLess (a b : Candidate) : Bool :=
  if a.recovery ≠ b.recovery then a.recovery
  else if a.priority ≠ b.priority then a.priority > b.priority
  else if a.readySeq ≠ b.readySeq then a.readySeq < b.readySeq
  else a.jobID < b.jobID

def queueLess (a b : Queue) : Bool :=
  if a.tenantID ≠ b.tenantID then a.tenantID < b.tenantID else a.name < b.name

def sortCandidates (candidates : List Candidate) : List Candidate :=
  candidates.insertionSort fun a b => candidateLess b a = false

def cloneAndSort (queues : List Queue) : List Queue :=
  (queues.map fun queue => { queue with candidates := sortCandidates queue.candidates })
    |>.insertionSort fun a b => queueLess b a = false

def canonicalSnapshot (input : Snapshot) : Snapshot :=
  { input with
    queues := cloneAndSort input.queues
    algorithm := if input.algorithm = "" then algorithmVersion else input.algorithm }

def Candidate.grant (candidate : Candidate) : Grant :=
  ⟨candidate.jobID, candidate.tenantID, candidate.queue, candidate.slotCost⟩

structure Turn where
  candidates : List Candidate
  deficit : Int
  remaining : Int
  grants : List Grant
  granted : Bool
  deriving DecidableEq

def serve (batchLimit deficit remaining : Int) (grants : List Grant) (granted : Bool) :
    List Candidate → Except Error Turn
  | [] => .ok ⟨[], deficit, remaining, grants, granted⟩
  | candidate :: rest =>
    if (grants.length : Int) < batchLimit then
      if candidate.slotCost < 1 then
        .error (.text ("job " ++ candidate.jobID ++ " has invalid slot cost " ++
          toString candidate.slotCost))
      else if candidate.slotCost > deficit ∨ candidate.slotCost > remaining then
        .ok ⟨candidate :: rest, deficit, remaining, grants, granted⟩
      else
        serve batchLimit (deficit - candidate.slotCost) (remaining - candidate.slotCost)
          (grants ++ [candidate.grant]) true rest
    else .ok ⟨candidate :: rest, deficit, remaining, grants, granted⟩

structure Round where
  queues : List Queue
  cursor : Nat
  remaining : Int
  grants : List Grant
  visitedWithoutGrant : Nat
  deriving DecidableEq

def Queue.quantum (queue : Queue) : Int := if queue.weight < 1 then 1 else queue.weight

/-- One turn of the outer loop. The cursor is an index into the queues at every
call, so the first case is never taken. -/
def visit (batchLimit : Int) (round : Round) : Except Error Round :=
  match round.queues[round.cursor]? with
  | none => .ok round
  | some queue =>
    let cursor := (round.cursor + 1) % round.queues.length
    if queue.candidates.isEmpty then
      .ok { round with
        cursor := cursor
        visitedWithoutGrant := round.visitedWithoutGrant + 1 }
    else
      match serve batchLimit (queue.deficit + queue.quantum) round.remaining round.grants false
          queue.candidates with
      | .error error => .error error
      | .ok turn => .ok {
          queues := round.queues.set round.cursor
            { queue with candidates := turn.candidates, deficit := turn.deficit }
          cursor := cursor
          remaining := turn.remaining
          grants := turn.grants
          visitedWithoutGrant := if turn.granted then 0 else round.visitedWithoutGrant + 1 }

def Round.continues (batchLimit : Int) (round : Round) : Bool :=
  (round.grants.length : Int) < batchLimit && 0 < round.remaining &&
    round.visitedWithoutGrant < round.queues.length

def rounds (batchLimit : Int) : Nat → Round → Except Error Round
  | 0, round => .ok round
  | fuel + 1, round =>
    if round.continues batchLimit then
      match visit batchLimit round with
      | .ok next => rounds batchLimit fuel next
      | .error error => .error error
    else .ok round

def turnBound (batchLimit : Int) (queues : List Queue) : Nat :=
  (batchLimit.toNat + 1) * (queues.length + 1)

def buildDecision (sequence : Int) (queues : List Queue) (cursor : Nat) (grants : List Grant) :
    Decision :=
  { sequence := sequence
    grants := grants
    queues := queues.map fun queue => ⟨queue.tenantID, queue.name, queue.deficit⟩
    nextCursor := if queues.isEmpty then 0 else cursor }

def decide (input : Snapshot) : Except Error Decision :=
  if input.workerSlots < 0 then .error (.text "worker slots must not be negative")
  else if input.batchLimit < 0 then .error (.text "batch limit must not be negative")
  else if input.algorithm ≠ "" ∧ input.algorithm ≠ algorithmVersion then
    .error (.about "unsupported scheduler algorithm %q" [input.algorithm])
  else
    let queues := cloneAndSort input.queues
    if queues.isEmpty ∨ input.workerSlots = 0 ∨ input.batchLimit = 0 then
      .ok (buildDecision input.sequence queues 0 [])
    else
      let cursor := (if input.cursor < 0 then 0 else input.cursor.toNat) % queues.length
      match rounds input.batchLimit (turnBound input.batchLimit queues)
          ⟨queues, cursor, input.workerSlots, [], 0⟩ with
      | .ok round => .ok (buildDecision input.sequence round.queues round.cursor round.grants)
      | .error error => .error error

end RailYard.Scheduler
