import RailYard.Store.Schema

/-! The life of jobs without the statements that carry it out. A yard is what
the tables say about jobs, leases, slots and history. A move takes one job from
one row to the next and does to the other tables what the two rows imply: slots
follow the lease, the ledger follows the terminal state, the history gets one
entry. -/
namespace RailYard.Lifecycle
open Library Domain Store Relation

structure Entry where
  eventSeq : Int
  jobID : String
  eventType : EventType
  state : JobState
  stateVersion : Int

def record (history : List Entry) (jobID : String) (eventType : EventType) (state : JobState)
    (stateVersion : Int) : List Entry :=
  history ++ [⟨history.length + 1, jobID, eventType, state, stateVersion⟩]

@[ext] structure Yard where
  jobs : Table String JobRow
  edges : Table (String × String) Unit
  attempts : Table (String × Int) AttemptRow
  completions : Table String CompletionRow
  deadLetters : String → Bool
  tenants : Table String TenantRow
  queueSlots : String × String → Option Int
  history : List Entry
  readySeq : Int

namespace Yard

def DependsOn (yard : Yard) (child parent : String) : Prop := (child, parent) ∈ yard.edges.keys

/-- `job` is reached from `root` over at least one edge. -/
def Descendant (yard : Yard) (root job : String) : Prop :=
  TransGen (fun parent child => yard.DependsOn child parent) root job

def ParentsSucceeded (yard : Yard) (id : String) : Prop :=
  ∀ parent row, yard.DependsOn id parent → yard.jobs.get? parent = some row →
    row.state = .succeeded

def occupies (tenantID : String) (row : JobRow) : Bool :=
  row.tenantID = tenantID && !row.state.terminal

def depth (yard : Yard) (tenantID : String) : Int :=
  yard.jobs.sumBy fun _ row => if occupies tenantID row then 1 else 0

def shift (yard : Yard) (tenantID queue : String) (delta : Int) : Yard :=
  { yard with
    tenants := yard.tenants.modify tenantID fun limits =>
      { limits with activeSlots := limits.activeSlots + delta }
    queueSlots := Function.update yard.queueSlots (tenantID, queue)
      ((yard.queueSlots (tenantID, queue)).map (· + delta)) }

theorem shift_zero (yard : Yard) (tenantID queue : String) :
    yard.shift tenantID queue 0 = yard := by
  have htenants : (yard.tenants.modify tenantID fun limits =>
      { limits with activeSlots := limits.activeSlots + 0 }) = yard.tenants := by
    apply Table.modify_self
    intro row _
    rw [add_zero]
  have hqueues : Function.update yard.queueSlots (tenantID, queue)
      ((yard.queueSlots (tenantID, queue)).map (· + 0)) = yard.queueSlots := by
    simp
  unfold shift
  rw [htenants, hqueues]

end Yard

def slots (row : JobRow) : Int := if row.state.leased then row.slotCost else 0

structure SameIdentity (row next : JobRow) : Prop where
  tenantID : next.tenantID = row.tenantID
  queueName : next.queueName = row.queueName
  slotCost : next.slotCost = row.slotCost
  retry : next.retry = row.retry

structure SameLease (row next : JobRow) : Prop where
  attemptNo : next.attemptNo = row.attemptNo
  leaseGeneration : next.leaseGeneration = row.leaseGeneration

structure SameHolder (attempt changed : AttemptRow) : Prop where
  workerID : changed.workerID = attempt.workerID
  leaseGeneration : changed.leaseGeneration = attempt.leaseGeneration
  tokenHash : changed.tokenHash = attempt.tokenHash

structure SameReceipt (attempt changed : AttemptRow) : Prop where
  digest : changed.completionRequestDigest = attempt.completionRequestDigest
  state : changed.receiptState = attempt.receiptState
  stateVersion : changed.receiptStateVersion = attempt.receiptStateVersion
  committedAt : changed.receiptCommittedAt = attempt.receiptCommittedAt

structure Move where
  id : String
  row : JobRow
  next : JobRow
  eventType : EventType
  attempts : Table (String × Int) AttemptRow
  readySeq : Int
  outputDigest : String := ""

def ledgerRow (row : JobRow) (outputDigest : String) : CompletionRow :=
  ⟨row.state, row.stateVersion, row.attemptNo, outputDigest, row.failure, row.terminalAt.getD 0⟩

namespace Move

def delta (move : Move) : Int := slots move.next - slots move.row

def apply (move : Move) (yard : Yard) : Yard :=
  { yard.shift move.row.tenantID move.row.queueName move.delta with
    jobs := yard.jobs.modify move.id fun _ => move.next
    attempts := move.attempts
    completions :=
      if move.next.state.terminal then
        yard.completions.insert move.id (ledgerRow move.next move.outputDigest)
      else yard.completions
    deadLetters :=
      if move.next.state = .deadLetter then Function.update yard.deadLetters move.id true
      else yard.deadLetters
    history := record yard.history move.id move.eventType move.next.state move.next.stateVersion
    readySeq := move.readySeq }

variable {move : Move}

theorem apply_of_alive (yard : Yard) (h : move.next.state.terminal = false) : move.apply yard =
      { yard.shift move.row.tenantID move.row.queueName move.delta with
        jobs := yard.jobs.modify move.id fun _ => move.next
        attempts := move.attempts
        history :=
          record yard.history move.id move.eventType move.next.state move.next.stateVersion
        readySeq := move.readySeq } := by
  have hdead : move.next.state ≠ .deadLetter := by
    intro hdead
    rw [hdead] at h
    cases h
  unfold apply
  rw [if_neg hdead, h]
  rfl

theorem apply_of_dead (yard : Yard) (h : move.next.state = .deadLetter) : move.apply yard =
      { yard.shift move.row.tenantID move.row.queueName move.delta with
        jobs := yard.jobs.modify move.id fun _ => move.next
        attempts := move.attempts
        completions := yard.completions.insert move.id (ledgerRow move.next move.outputDigest)
        deadLetters := Function.update yard.deadLetters move.id true
        history :=
          record yard.history move.id move.eventType move.next.state move.next.stateVersion
        readySeq := move.readySeq } := by
  unfold apply
  rw [if_pos h, h]
  rfl

end Move

/-- Restrictions a run may keep: leases are granted at all, an operator releases
only jobs whose parents have succeeded, no failure reaches a descendant that
holds a lease, a job whose attempt has failed is available again at a time
that the policy accepts for the attempt, and a job goes from one state to the
next only over an edge that the policy accepts under the event. -/
structure Policy where
  granting : Prop := True
  gated : Prop := False
  tidy : Prop := False
  backoff : String → Int → Int → Prop := fun _ _ _ => True
  edges : String → EventType → JobState → JobState → Prop := fun _ _ _ _ => True

def anyPolicy : Policy := {}

inductive Move.Kind (policy : Policy) (yard : Yard) (move : Move) : Prop
  | lease (attempt : AttemptRow)
      (pending : move.row.state = .pending) (ready : 0 < move.row.readySeq)
      (scheduled : move.next.state = .scheduled)
      (attemptNo : move.next.attemptNo = move.row.attemptNo + 1)
      (generation : move.next.leaseGeneration = move.row.leaseGeneration + 1)
      (leased : attempt.state = .leased)
      (current : attempt.leaseGeneration = move.next.leaseGeneration)
      (capacity : ∀ limits, yard.tenants.get? move.row.tenantID = some limits →
        limits.maxSlots = 0 ∨ limits.activeSlots + move.row.slotCost ≤ limits.maxSlots)
      (inserted : move.attempts =
        yard.attempts.insert (move.id, move.next.attemptNo) attempt)
      (granting : policy.granting)
      (unanswered : attempt.completionRequestDigest = none)
  | start (startedAt : Int)
      (scheduled : move.row.state = .scheduled) (running : move.next.state = .running)
      (same : SameLease move.row move.next)
      (edited : move.attempts = yard.attempts.modify (move.id, move.row.attemptNo)
        fun attempt => { attempt with state := .running, startedAt := some startedAt })
  | close (edit : AttemptRow → AttemptRow)
      (leased : move.row.state.leased = true) (released : move.next.state.leased = false)
      (same : SameLease move.row move.next)
      (closes : ∀ attempt, (edit attempt).state.isOpen = false)
      (keeps : ∀ attempt, SameHolder attempt (edit attempt))
      (edited : move.attempts = yard.attempts.modify (move.id, move.row.attemptNo) edit)
  | ready (idle : move.row.state = .pending ∨ move.row.state = .retrying)
      (pending : move.next.state = .pending)
      (parents : yard.ParentsSucceeded move.id)
      (same : SameLease move.row move.next)
      (kept : move.attempts = yard.attempts)
  | override (idle : move.row.state.leased = false)
      (target : move.next.state = .pending ∨ move.next.state.unsuccessful = true)
      (gate : policy.gated → move.next.state = .pending → yard.ParentsSucceeded move.id)
      (same : SameLease move.row move.next)
      (kept : move.attempts = yard.attempts)
  | cascade (root : String) (descendant : yard.Descendant root move.id)
      (dead : move.next.state = .deadLetter)
      (tidy : policy.tidy → move.row.state.leased = false)
      (same : SameLease move.row move.next)
      (kept : move.attempts = yard.attempts)

inductive Move.Readiness (yard : Yard) (move : Move) : Prop
  | drawn (pending : move.next.state = .pending) (seq : move.next.readySeq = yard.readySeq + 1)
      (counter : move.readySeq = yard.readySeq + 1)
  | kept (busy : move.row.state ≠ .pending) (away : move.next.state ≠ .pending)
      (seq : move.next.readySeq = move.row.readySeq) (counter : move.readySeq = yard.readySeq)
  | dropped (away : move.next.state ≠ .pending) (seq : move.next.readySeq = 0)
      (counter : move.readySeq = yard.readySeq)

/-- What becomes of the attempts that a job is allowed. A lease that ends before
its job leaves one over, unless an operator takes the lease back; and a job is
buried for its own failure only when it has none left. -/
structure Move.Budget (policy : Policy) (move : Move) : Prop where
  left : move.row.state.leased = true → move.next.state.leased = false →
    move.next.state.terminal = false → move.eventType ≠ .operator "release" →
    move.row.attemptNo < move.row.retry.maxAttempts
  failed : move.eventType = .jobCompleted → move.next.state = .deadLetter →
    move.row.retry.retryable = false ∨ move.row.retry.maxAttempts ≤ move.row.attemptNo
  expired : move.eventType = .leaseReaped →
    (move.next.state = .deadLetter ↔ move.row.retry.maxAttempts ≤ move.row.attemptNo)
  backoff : move.next.state = .retrying →
    policy.backoff move.id move.next.attemptNo move.next.availableAt

theorem Move.Budget.other {move : Move} (completed : move.eventType ≠ .jobCompleted)
    (reaped : move.eventType ≠ .leaseReaped) (retrying : move.next.state ≠ .retrying)
    (left : move.row.state.leased = true → move.next.state.leased = false →
      move.next.state.terminal = false → move.eventType ≠ .operator "release" →
      move.row.attemptNo < move.row.retry.maxAttempts) : move.Budget policy where
  left := left
  failed := fun hcompleted => (completed hcompleted).elim
  expired := fun hreaped => (reaped hreaped).elim
  backoff := fun hretrying => (retrying hretrying).elim

def EventType.ofMove : EventType → Bool
  | .jobAdmitted => false
  | .operator action => action ≠ "redrive" && action ≠ "retry"
  | _ => true

structure Move.Valid (policy : Policy) (yard : Yard) (move : Move) : Prop where
  found : yard.jobs.get? move.id = some move.row
  alive : move.row.state.terminal = false
  identity : SameIdentity move.row move.next
  version : move.next.stateVersion = move.row.stateVersion + 1
  ended : move.next.state.terminal = true → move.next.terminalAt.isSome
  event : EventType.ofMove move.eventType = true
  /-- Parents release a job that has never been ready. -/
  released : move.eventType = .dependencyReleased →
    move.row.state = .pending ∧ move.row.readySeq = 0
  /-- Without a lease, only an operator's release changes the time from which
  a job is available. -/
  punctual : move.row.state.leased = false → move.next.state.terminal = false →
    move.eventType ≠ .operator "release" → move.next.availableAt = move.row.availableAt
  readiness : move.Readiness yard
  budget : move.Budget policy
  edge : policy.edges move.id move.eventType move.row.state move.next.state
  kind : move.Kind policy yard

/-- Jobs that are admitted together, with the edges between them and to jobs
that exist. -/
structure Batch where
  jobs : List (String × JobRow)
  edges : List (String × String)
  readySeq : Int

namespace Batch

def ids (batch : Batch) : List String := batch.jobs.map Prod.fst

def apply (batch : Batch) (yard : Yard) : Yard where
  jobs := yard.jobs.insertAll batch.jobs
  edges := yard.edges.insertAll (batch.edges.map fun edge => (edge, ()))
  attempts := yard.attempts
  completions := yard.completions.insertAll
    ((batch.jobs.filter fun entry => entry.2.state.terminal).map fun entry =>
      (entry.1, ledgerRow entry.2 ""))
  deadLetters := fun id => yard.deadLetters id ||
    batch.jobs.any fun entry => entry.1 = id && entry.2.state = .deadLetter
  tenants := yard.tenants
  queueSlots := yard.queueSlots
  history := batch.jobs.foldl (fun history entry =>
    record history entry.1 .jobAdmitted entry.2.state entry.2.stateVersion) yard.history
  readySeq := batch.readySeq

structure NewRow (yard : Yard) (batch : Batch) (row : JobRow) : Prop where
  state : row.state = .pending ∨ row.state = .deadLetter
  ended : row.state = .deadLetter → row.terminalAt.isSome
  attemptNo : row.attemptNo = 0
  stateVersion : row.stateVersion = 1
  leaseGeneration : row.leaseGeneration = 0
  slotCost : 0 < row.slotCost
  /-- There is an attempt to make, unless the policy is that of another job. -/
  retry : 0 < row.retry.maxAttempts ∨
    ∃ id other, yard.jobs.get? id = some other ∧ row.retry = other.retry
  tenant : (yard.tenants.get? row.tenantID).isSome
  queue : (yard.queueSlots (row.tenantID, row.queueName)).isSome
  readySeq : row.readySeq = 0 ∨
    row.state = .pending ∧ yard.readySeq < row.readySeq ∧ row.readySeq ≤ batch.readySeq

structure Valid (yard : Yard) (batch : Batch) : Prop where
  nodup : batch.ids.Nodup
  fresh : ∀ id ∈ batch.ids, yard.jobs.get? id = none
  rows : ∀ id row, (id, row) ∈ batch.jobs → NewRow yard batch row
  counter : yard.readySeq ≤ batch.readySeq
  /-- Places in the ready order are drawn one after the other. -/
  places : batch.jobs.Pairwise fun first second =>
    0 < second.2.readySeq → first.2.readySeq < second.2.readySeq
  /-- The tenant has room for the whole batch. -/
  depth : ∀ id row limits, (id, row) ∈ batch.jobs →
    yard.tenants.get? row.tenantID = some limits → 0 < limits.maxDepth →
    yard.depth row.tenantID + batch.jobs.length ≤ limits.maxDepth
  /-- An edge leads from a new job to a job of the same tenant. -/
  child : ∀ child parent, (child, parent) ∈ batch.edges → ∃ row, (child, row) ∈ batch.jobs ∧
    ∃ upstream, (yard.jobs.get? parent = some upstream ∨ (parent, upstream) ∈ batch.jobs) ∧
      upstream.tenantID = row.tenantID
  /-- The new jobs can be ranked such that edges among them lead downwards. -/
  ranked : ∃ rank : String → Nat, ∀ child parent, (child, parent) ∈ batch.edges →
    parent ∈ batch.ids → rank parent < rank child
  /-- A job of which a parent has failed is admitted dead. -/
  failed : ∀ child parent row upstream, (child, parent) ∈ batch.edges →
    (child, row) ∈ batch.jobs →
    (yard.jobs.get? parent = some upstream ∨ (parent, upstream) ∈ batch.jobs) →
    upstream.state.unsuccessful = true → row.state = .deadLetter
  /-- A job is ready at once only behind parents that have succeeded. -/
  gated : ∀ child parent row upstream, (child, parent) ∈ batch.edges →
    (child, row) ∈ batch.jobs →
    (yard.jobs.get? parent = some upstream ∨ (parent, upstream) ∈ batch.jobs) →
    0 < row.readySeq → upstream.state = .succeeded

end Batch

/-- One change of the yard that belongs to at most one job of those that exist. -/
inductive Micro (policy : Policy) (yard : Yard) : Yard → Prop
  | tenant (id : String) (row : TenantRow) (absent : yard.tenants.get? id = none)
      (idle : row.activeSlots = 0) :
      Micro policy yard { yard with tenants := yard.tenants.insert id row }
  | queue (key : String × String) (absent : yard.queueSlots key = none) :
      Micro policy yard { yard with queueSlots := Function.update yard.queueSlots key (some 0) }
  | admission (batch : Batch) (valid : batch.Valid yard) : Micro policy yard (batch.apply yard)
  | heartbeat (key : String × Int) (edit : AttemptRow → AttemptRow)
      (keeps : ∀ attempt, SameHolder attempt (edit attempt))
      (state : ∀ attempt, (edit attempt).state = attempt.state)
      (receipt : ∀ attempt, SameReceipt attempt (edit attempt)) :
      Micro policy yard { yard with attempts := yard.attempts.modify key edit }
  | note (id : String) (row : JobRow) (action : String)
      (found : yard.jobs.get? id = some row)
      (action_eq : action = "redrive" ∨ action = "retry")
      (ended : row.state.terminal = true) :
      Micro policy yard { yard with
        history := record yard.history id (.operator action) row.state row.stateVersion }
  | move (move : Move) (valid : move.Valid policy yard) : Micro policy yard (move.apply yard)

def CascadeMove (policy : Policy) (root : String) (yard yard' : Yard) : Prop :=
  ∃ move : Move, move.Valid policy yard ∧ move.next.state = .deadLetter ∧
    yard.Descendant root move.id ∧ move.attempts = yard.attempts ∧ move.apply yard = yard'

/-- One change that leaves failures propagated: a job fails together with
everything that waits for it. -/
inductive Step (policy : Policy) (yard : Yard) : Yard → Prop
  | micro {yard' : Yard} (h : Micro policy yard yard')
      (quiet : ∀ id row, yard'.jobs.get? id = some row → row.state.unsuccessful = true →
        yard.jobs.get? id = some row ∨ yard.jobs.get? id = none) : Step policy yard yard'
  | fail (move : Move) {yard' : Yard} (valid : move.Valid policy yard)
      (cascade : ReflTransGen (CascadeMove policy move.id) (move.apply yard) yard')
      (complete : ∀ id row, yard'.Descendant move.id id → yard'.jobs.get? id = some row →
        row.state.terminal = true) : Step policy yard yard'

theorem CascadeMove.micro (h : CascadeMove policy root yard yard') : Micro policy yard yard' := by
  obtain ⟨move, valid, _, _, _, rfl⟩ := h
  exact .move move valid

theorem Step.micros (h : Step policy yard yard') : ReflTransGen (Micro policy) yard yard' := by
  cases h with
  | micro h _ => exact .single h
  | fail move valid cascade _ =>
    exact .head (.move move valid)
      (ReflTransGen.mono (fun _ _ => CascadeMove.micro) _ _ cascade)

/-- `policy'` permits what `policy` does. -/
structure Policy.Permits (policy policy' : Policy) : Prop where
  granting : policy.granting → policy'.granting
  gated : policy'.gated → policy.gated
  tidy : policy'.tidy → policy.tidy
  backoff : ∀ id attemptNo time, policy.backoff id attemptNo time → policy'.backoff id attemptNo time
  edges : ∀ id eventType state next, policy.edges id eventType state next →
    policy'.edges id eventType state next

section Permits

theorem Move.Valid.permits {move : Move} (h : policy.Permits policy')
    (valid : move.Valid policy yard) : move.Valid policy' yard := by
  refine { valid with
    budget := { valid.budget with
      backoff := fun hretrying => h.backoff _ _ _ (valid.budget.backoff hretrying) }
    edge := h.edges _ _ _ _ valid.edge
    kind := ?_ }
  cases valid.kind with
  | lease attempt pending ready scheduled attemptNo generation leased current capacity inserted
      granting unanswered =>
    exact .lease attempt pending ready scheduled attemptNo generation leased current capacity
      inserted (h.granting granting) unanswered
  | start startedAt scheduled running same edited =>
    exact .start startedAt scheduled running same edited
  | close edit leased released same closes keeps edited =>
    exact .close edit leased released same closes keeps edited
  | ready idle pending parents same kept => exact .ready idle pending parents same kept
  | override idle target gate same kept =>
    exact .override idle target (fun hgated => gate (h.gated hgated)) same kept
  | cascade root descendant dead tidy same kept =>
    exact .cascade root descendant dead (fun htidy => tidy (h.tidy htidy)) same kept

theorem Micro.permits (h : policy.Permits policy') (hmicro : Micro policy yard yard') :
    Micro policy' yard yard' := by
  cases hmicro with
  | tenant id row absent idle => exact .tenant id row absent idle
  | queue key absent => exact .queue key absent
  | admission batch valid => exact .admission batch valid
  | heartbeat key edit keeps state receipt => exact .heartbeat key edit keeps state receipt
  | note id row action found action_eq ended => exact .note id row action found action_eq ended
  | move move valid => exact .move move (valid.permits h)

theorem CascadeMove.permits (h : policy.Permits policy')
    (hmove : CascadeMove policy root yard yard') : CascadeMove policy' root yard yard' := by
  obtain ⟨move, valid, hdead, hdescendant, hkept, happly⟩ := hmove
  exact ⟨move, valid.permits h, hdead, hdescendant, hkept, happly⟩

theorem Step.permits (h : policy.Permits policy') (hstep : Step policy yard yard') :
    Step policy' yard yard' := by
  cases hstep with
  | micro hmicro quiet => exact .micro (hmicro.permits h) quiet
  | fail move valid cascade complete =>
    exact .fail move (valid.permits h)
      (ReflTransGen.mono (fun _ _ => CascadeMove.permits h) _ _ cascade) complete

end Permits

theorem micros_of_steps (h : ReflTransGen (Step policy) yard yard') :
    ReflTransGen (Micro policy) yard yard' := by
  induction h with
  | refl => exact .refl
  | tail _ hstep ih => exact ih.trans hstep.micros

theorem preserved {policy : Policy} {motive : Yard → Prop}
    (hstep : ∀ yard yard', motive yard → Micro policy yard yard' → motive yard')
    {yard yard' : Yard} (h : ReflTransGen (Micro policy) yard yard') (hstart : motive yard) :
    motive yard' := by
  induction h with
  | refl => exact hstart
  | tail _ hlast ih => exact hstep _ _ ih hlast

end RailYard.Lifecycle
