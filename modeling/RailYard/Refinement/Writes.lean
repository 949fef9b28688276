import RailYard.Library.Preservation
import RailYard.Store.System

/-! What the transactions write. Every statement of a transaction at one write
time falls into one of a few kinds, and a relation between databases that each
kind respects is respected by every call, however the call ends. -/
namespace RailYard.Refinement
open Library Library.Transaction Domain Store
open Scheduler

def isOperator : EventType → Bool
  | .operator _ => true
  | _ => false

/-- How the payload of an event is bound, where that of an admission is bound in a
way of its own. -/
def boundAs (admission : StorageClass) : EventType → StorageClass
  | .jobAdmitted => admission
  | _ => .text

def Plain (admission : StorageClass) (event : EventRow) : Prop :=
  isOperator event.eventType = false ∧ event.storage = boundAs admission event.eventType

/-- A relation that jobs may be admitted in. What is written carries the write
time. -/
structure Admits (now : Time) (admission : StorageClass) (related : Database → Database → Prop) :
    Prop where
  newJob : ∀ db id row, db.jobs.get? id = none → row.updatedAt = timeToDB now →
    related db { db with jobs := db.jobs.insert id row }
  jobDependencies : ∀ db table, related db { db with jobDependencies := table }
  completion : ∀ db id row, db.jobCompletions.get? id = none → row.committedAt = timeToDB now →
    related db { db with jobCompletions := db.jobCompletions.insert id row }
  deadLetter : ∀ db id row, db.deadLetters.get? id = none → row.redrivenJobID = none →
    related db { db with deadLetters := db.deadLetters.insert id row }
  tenantLimits : ∀ db table, related db { db with tenantLimits := table }
  readySeq : ∀ db seq, related db { db with readySeq := seq }
  newQueue : ∀ db key row, db.queueState.get? key = none → row.deficit = 0 →
    related db { db with queueState := db.queueState.insert key row }
  event : ∀ db event, Plain admission event → event.occurredAt = timeToDB now →
    related db { db with events := db.events ++ [event] }

/-- A relation that jobs may move in, too, with the shape of DAGs around them. A
queue keeps its deficit, and a node of a DAG is a job. -/
structure Moves (now : Time) (admission : StorageClass) (related : Database → Database → Prop) : Prop
    extends Admits now admission related where
  job : ∀ db id change, (∀ row : JobRow, (change row).updatedAt = timeToDB now) →
    related db { db with jobs := db.jobs.modify id change }
  dagRun : ∀ db id row, db.dagRuns.get? id = none → row.updatedAt = timeToDB now →
    related db { db with dagRuns := db.dagRuns.insert id row }
  dagJob : ∀ db key row, (db.jobs.get? key.2).isSome = true →
    related db { db with dagJobs := db.dagJobs.insert key row }
  queueSlots : ∀ db key change, (∀ row : QueueRow, (change row).deficit = row.deficit) →
    related db { db with queueState := db.queueState.modify key change }

structure Later (now : Time) (row row' : AttemptRow) : Prop where
  leasedAt : row'.leasedAt = row.leasedAt
  heartbeatAt : row'.heartbeatAt = row.heartbeatAt ∨ row'.heartbeatAt = timeToDB now
  completedAt : row'.completedAt = row.completedAt ∨ row'.completedAt = some (timeToDB now)
  expiresAt : row.expiresAt ≤ row'.expiresAt

structure Lives (now : Time) (admission : StorageClass) (related : Database → Database → Prop) : Prop
    extends Moves now admission related where
  newAttempt : ∀ db key row, db.attempts.get? key = none → row.leasedAt = timeToDB now →
    row.heartbeatAt = timeToDB now → row.completedAt = none →
    related db { db with attempts := db.attempts.insert key row }
  attempt : ∀ db key change, (∀ row, Later now row (change row)) →
    related db { db with attempts := db.attempts.modify key change }

def Reworded (event event' : EventRow) : Prop :=
  ∃ payload storage, event' = { event with payload := payload, storage := storage }

theorem Reworded.occurredAt (h : Reworded event event') : event'.occurredAt = event.occurredAt := by
  obtain ⟨_, _, rfl⟩ := h
  rfl

def Noted (now : Time) (note : StorageClass) (event : EventRow) : Prop :=
  event.occurredAt = timeToDB now ∧ isOperator event.eventType = true ∧ event.storage = note

/-- A relation that operators' events may be added in and, where these are bound as
bytes, events reworded. -/
structure Audible (now : Time) (note : StorageClass) (related : Database → Database → Prop) :
    Prop where
  add : ∀ db event, Noted now note event → related db { db with events := db.events ++ [event] }
  reword : ∀ db change, (note = .blob ∧ ∀ event : EventRow, Reworded event (change event)) →
    related db { db with events := db.events.map change }

theorem Audible.reworded {related : Database → Database → Prop} (audible : Audible now .blob related)
    (db : Database) (change : EventRow → EventRow) (h : ∀ event, Reworded event (change event)) :
    related db { db with events := db.events.map change } :=
  audible.reword db change ⟨rfl, h⟩

structure Scheduled (related : Database → Database → Prop) : Prop where
  schedulerSeq : ∀ db seq, related db { db with schedulerSeq := seq }
  schedulerCursor : ∀ db cursor, related db { db with schedulerCursor := cursor }
  decisionLog : ∀ db table, related db { db with decisionLog := table }
  queueState : ∀ db table, related db { db with queueState := table }

structure Filed (now : Time) (related : Database → Database → Prop) : Prop where
  operation : ∀ db key row, db.operationRequests.get? key = none →
    row.committedAt = timeToDB now →
    related db { db with operationRequests := db.operationRequests.insert key row }
  audit : ∀ db id row, db.auditEvents.get? id = none → row.occurredAt = timeToDB now →
    related db { db with auditEvents := db.auditEvents.insert id row }

structure Audited (now : Time) (note : StorageClass) (related : Database → Database → Prop) : Prop
    extends Filed now related where
  events : Audible now note related

def Postponed (row row' : CronRow) : Prop :=
  row' = { row with nextFireAt := row'.nextFireAt, updatedAt := row'.updatedAt }

/-- Apart from the lives of jobs there are seven areas of the database, and every
call keeps to one of them. -/
inductive Area where
  | lives
  | workers
  | submissions
  | triggers
  | occurrences
  | deliveries
  | controls
  | decisions
  deriving DecidableEq

def area : Op → Area
  | .submitJob .. | .submitWorkflow .. => .submissions
  | .createCronTrigger .. => .triggers
  | .recordOccurrence .. => .occurrences
  | .recordDelivery .. => .deliveries
  | .submitJobOperation .. | .submitDagOperation .. | .recordControlAction ..
  | .recordOperatorAction .. | .cancelJob .. | .forceJobAction ..
  | .redriveDeadLetterControl .. | .retryJobControl .. | .redriveDeadLetter .. => .controls
  | .acquire .. => .decisions
  | .registerWorker .. | .heartbeatWorker .. => .workers
  | _ => .lives

def redrives : Op → Bool
  | .redriveDeadLetterControl .. | .redriveDeadLetter .. => true
  | _ => false

def admissionStorage : Op → StorageClass
  | .submitJob .. | .submitWorkflow .. => .blob
  | _ => .text

def noteStorage : Op → StorageClass
  | .redriveDeadLetter .. => .blob
  | _ => .text

def Links (related : Database → Database → Prop) : Prop :=
  ∀ db id createdID, related db { db with
    deadLetters := db.deadLetters.modify id fun row =>
      { row with redrivenJobID := some createdID } }

def Writes (now : Time) (note : StorageClass) (related : Database → Database → Prop) : Area → Prop
  | .lives => True
  | .workers => ∀ db table, related db { db with workers := table }
  | .submissions => ∀ db table, related db { db with idempotencyRequests := table }
  | .triggers => (∀ db table, related db { db with idempotencyRequests := table }) ∧
      ∀ db id row, db.cronTriggers.get? id = none →
        related db { db with cronTriggers := db.cronTriggers.insert id row }
  | .occurrences => (∀ db key row, db.cronOccurrences.get? key = none →
        related db { db with cronOccurrences := db.cronOccurrences.insert key row }) ∧
      ∀ db id change, (∀ row, Postponed row (change row)) →
        related db { db with cronTriggers := db.cronTriggers.modify id change }
  | .deliveries => ∀ db key row, db.redisDeliveries.get? key = none →
      related db { db with redisDeliveries := db.redisDeliveries.insert key row }
  | .controls => Audited now note related
  | .decisions => Scheduled related

variable [IsPreorder Database related]

omit [IsPreorder Database related] in
theorem Audible.addEvent (audible : Audible now note related) {eventType : EventType}
    (h : isOperator eventType = true) (jobID : String) (state : JobState) (stateVersion : Int)
    (payload : EventPayload) :
    Relates related (addEvent note jobID eventType state stateVersion now payload) :=
  .mutate fun db => audible.add db _ ⟨rfl, h, rfl⟩

namespace Admits

variable (admits : Admits now admission related)
include admits

theorem nextReadySeq : Relates related nextReadySeq :=
  .bind (.mutate fun db => admits.readySeq db _) fun _ => .query _

theorem readySeqIf (ready : Prop) [Decidable ready] : Relates related (readySeqIf ready) := by
  unfold Store.readySeqIf
  split
  · exact admits.nextReadySeq
  · exact .pure 0

omit [IsPreorder Database related] in
theorem addEvent {eventType : EventType} {storage : StorageClass}
    (h : isOperator eventType = false) (hstorage : storage = boundAs admission eventType)
    (jobID : String) (state : JobState) (stateVersion : Int) (payload : EventPayload) :
    Relates related (addEvent storage jobID eventType state stateVersion now payload) :=
  .mutate fun db => admits.event db _ ⟨h, hstorage⟩ rfl

theorem insertCanonicalCompletion (jobID : String) (state : JobState)
    (stateVersion attemptNo : Int) (outputDigest : String) (failure : Option Failure) :
    Relates related
      (insertCanonicalCompletion jobID state stateVersion attemptNo outputDigest failure now) :=
  .bind (.require _ _) fun _ => .insert_of _ fun db habsent => admits.completion db _ _ habsent rfl

theorem insertDeadLetter (jobID : String) (failure : Option Failure) :
    Relates related (insertDeadLetter jobID failure now) := by
  cases failure with
  | none => exact .throw _
  | some failure => exact .insert_of _ fun db habsent => admits.deadLetter db _ _ habsent rfl

theorem ensureAdmission (options : Options) (tenantID : String) (incoming : Nat) :
    Relates related (ensureAdmission options tenantID incoming) :=
  .bind (.insertIfAbsent admits.tenantLimits _ _) fun _ =>
    .bindOption (.select Store.tenantLimits _) (.throw _) fun _ =>
    .bind (.query _) fun _ => .require _ _

theorem ensureQueue (tenantID queue : String) : Relates related (ensureQueue tenantID queue now) :=
  .bind (.insertIfAbsent_of fun db habsent => admits.newQueue db _ _ habsent rfl) fun _ => .pure _

theorem insertJob (h : job.updatedAt = now) : Relates related (insertJob job) :=
  .bind (.require _ _) fun _ =>
    .insert_of _ fun db habsent => admits.newJob db _ _ habsent (congrArg timeToDB h)

theorem insertDependency (context jobID dependsOnID : String) :
    Relates related (insertDependency context jobID dependsOnID) :=
  .bind (.require _ _) fun _ => .insert admits.jobDependencies _ _ _

theorem admitJob (options : Options) (spec : JobSpec) (actor : String) (entropy : Entropy) :
    Relates related (admitJob options admission spec actor entropy now) := by
  refine .bind (.lift _) fun _ => .bind (.query _) fun _ => .bind (.lift _) fun check =>
    .bind (admits.ensureAdmission _ _ _) fun _ => .bind (admits.ensureQueue _ _) fun _ =>
    .bind (admits.readySeqIf _) fun readySeq => .bind (admits.insertJob ?_) fun _ =>
    .bind (.forM fun _ => admits.insertDependency _ _ _) fun _ =>
    .bind (admits.addEvent rfl rfl _ _ _ _) fun _ =>
    .bind (.onlyIf (.bind (admits.insertCanonicalCompletion _ _ _ _ _ _) fun _ =>
      admits.insertDeadLetter _ _)) fun _ => .pure _
  unfold Job.failedUpstream
  split <;> rfl

theorem admitNodes (tenantID : String) (entropy : Nat → Entropy) (index : Nat)
    (nodes : List (JobSpec × List Nat)) :
    Relates related (admitNodes tenantID now entropy index nodes) := by
  induction nodes generalizing index with
  | nil => exact .pure []
  | cons node rest ih =>
    exact .bind (.bind (admits.ensureQueue _ _) fun _ => .bind (admits.readySeqIf _) fun _ =>
      .bind (admits.insertJob rfl) fun _ => .pure _) fun _ => .bind (ih _) fun _ => .pure _

theorem admitWorkflow (options : Options) (tenantID : String) (nodes : List WorkflowNode)
    (actor : String) (entropy : Nat → Entropy) :
    Relates related (admitWorkflow options admission tenantID nodes actor entropy now) :=
  .bind (.lift _) fun _ => .bind (admits.ensureAdmission _ _ _) fun _ =>
    .bind (admits.admitNodes _ _ _ _) fun _ =>
    .bind (.forM fun _ => admits.insertDependency _ _ _) fun _ =>
    .bind (.forM fun _ => admits.addEvent rfl rfl _ _ _ _) fun _ => .pure _

omit admits in
theorem cloneJob (admits : Admits now .text related) (options : Options) (original : Job)
    (entropy : Entropy) : Relates related (cloneJob options original entropy now) :=
  .bind (admits.ensureAdmission _ _ _) fun _ => .bind (admits.ensureQueue _ _) fun _ =>
    .bind admits.nextReadySeq fun _ => .bind (admits.insertJob rfl) fun _ =>
    .bind (admits.addEvent rfl rfl _ _ _ _) fun _ => .pure _

end Admits

namespace Moves

variable (moves : Moves now admission related)
include moves

theorem updateJob (id : String) (guard : JobRow → Bool)
    (h : ∀ row, (change row).updatedAt = timeToDB now) :
    Relates related (update Store.jobs id guard change : Tx Bool) :=
  .update_of fun db => moves.job db id change h

theorem reserveSlots (tenantID queue : String) (slotCost : Int) :
    Relates related (reserveSlots tenantID queue slotCost now) := by
  refine .bind (.update moves.tenantLimits _ _ _) fun reserved => ?_
  split
  · exact .bind (.update_of fun db => moves.queueSlots db _ _ fun _ => rfl) fun _ =>
      .bind (.require _ _) fun _ => .pure true
  · exact .pure false

theorem releaseSlots (tenantID queue : String) (slotCost : Int) :
    Relates related (releaseSlots tenantID queue slotCost now) :=
  .bind (.update moves.tenantLimits _ _ _) fun _ => .bind (.require _ _) fun _ =>
    .bind (.update_of fun db => moves.queueSlots db _ _ fun _ => rfl) fun _ => .require _ _

section Maintenance

theorem promoteDue (limit : Int) : Relates related (promoteDue now limit) :=
  .bind (.query _) fun _ => .bind (.forM fun _ =>
    .bind moves.nextReadySeq fun _ => .bind (moves.updateJob _ _ fun _ => rfl) fun _ =>
      .bind (.require _ _) fun _ => moves.addEvent rfl rfl _ _ _ _) fun _ => .pure _

theorem activateChildren (parentID : String) : Relates related (activateChildren parentID now) :=
  .bind (.query _) fun _ => .forM fun _ =>
    .bind moves.nextReadySeq fun _ => .bind (moves.updateJob _ _ fun _ => rfl) fun _ =>
      .bind (.require _ _) fun _ => moves.addEvent rfl rfl _ _ _ _

theorem failDescendants (parentID : String) : Relates related (failDescendants parentID now) :=
  .bind (.query _) fun _ => .forM fun _ => .bind (.onlyIf (moves.releaseSlots _ _ _)) fun _ =>
    .bind (moves.updateJob _ _ fun _ => rfl) fun _ => .bind (.require _ _) fun _ =>
    .bind (moves.insertCanonicalCompletion _ _ _ _ _ _) fun _ =>
    .bind (moves.insertDeadLetter _ _) fun _ => moves.addEvent rfl rfl _ _ _ _

end Maintenance

section Surroundings

theorem insertDag (h : row.updatedAt = timeToDB now) (id : String) :
    Relates related (insertDag id row) :=
  .bind (.query _) fun _ => .bind (.require _ _) fun _ =>
    .insert_of _ fun db habsent => moves.dagRun db _ _ habsent h

theorem insertDagNode (dagID : String) (node : DagNode) :
    Relates related (insertDagNode dagID node) := by
  refine .query_bind fun db => ?_
  unfold Transaction.require
  split
  · rename_i hvalid
    rw [Bool.and_eq_true] at hvalid
    change related db (after (Transaction.insert dagJobs _ _ _) db)
    unfold after Transaction.insert
    cases dagJobs.read db |>.get? (dagID, node.jobID) with
    | none => exact moves.dagJob db _ _ hvalid.1
    | some row => exact refl_of related db
  · exact refl_of related db

theorem saveDag (id tenantID idempotencyKey requestDigest : String) (nodes : List DagNode) :
    Relates related (saveDag id tenantID idempotencyKey requestDigest nodes now) :=
  .bindOption (.query _)
    (.bind (moves.insertDag rfl _) fun _ => .forM (moves.insertDagNode id)) fun _ => .require _ _

end Surroundings

end Moves

namespace Lives

variable (lives : Lives now admission related)
include lives

theorem updateAttempt (key : String × Int) (guard : AttemptRow → Bool)
    (h : ∀ row, Later now row (change row)) :
    Relates related (update Store.attempts key guard change : Tx Bool) :=
  .update_of fun db => lives.attempt db key change h

theorem reapAttempt (entry : String × ExpiredAttempt) : Relates related (reapAttempt now entry) := by
  refine .bind (lives.updateAttempt _ _ fun _ => ⟨rfl, .inl rfl, .inr rfl, le_rfl⟩) fun _ =>
    .bind (lives.releaseSlots _ _ _) fun _ => ?_
  split
  · exact .bind (.bind (lives.updateJob _ _ fun _ => rfl) fun _ => .bind (.require _ _) fun _ =>
      .bind (lives.insertCanonicalCompletion _ _ _ _ _ _) fun _ =>
      .bind (lives.insertDeadLetter _ _) fun _ => lives.addEvent rfl rfl _ _ _ _) fun _ =>
      lives.failDescendants _
  · exact .bind lives.nextReadySeq fun _ => .bind (lives.updateJob _ _ fun _ => rfl) fun _ =>
      .bind (.require _ _) fun _ => lives.addEvent rfl rfl _ _ _ _

theorem reapExpired (limit : Int) : Relates related (reapExpired now limit) :=
  .bind (.query _) fun _ => .bind (.forM lives.reapAttempt) fun _ => .pure _

section Leases

theorem markRunningTx (sha256 : Hash) (workerID : String) (ref : LeaseRef) :
    Relates related (markRunningTx sha256 workerID ref now) := by
  refine .bind (.select Store.attempts _) fun attempt => .bind (.select Store.jobs _) fun job => ?_
  split
  · refine .bind (.require _ _) fun _ => .bind (.require _ _) fun _ => ?_
    split
    · exact .pure ()
    · exact .bind (.require _ _) fun _ =>
        .bind (lives.updateAttempt _ _ fun _ => ⟨rfl, .inl rfl, .inl rfl, le_rfl⟩) fun _ =>
        .bind (lives.updateJob _ _ fun _ => rfl) fun _ => lives.addEvent rfl rfl _ _ _ _
  · exact .throw _

theorem commitCompletion (sha256 : Hash) (completion : Completion) (job : JobRow)
    (nextState : JobState) (availableAt : Time) :
    Relates related (commitCompletion sha256 completion job nextState availableAt now) :=
  .bind (lives.updateJob _ _ fun _ => rfl) fun _ => .bind (.require _ _) fun _ =>
    .bind (lives.releaseSlots _ _ _) fun _ =>
    .bind (.onlyIf (lives.insertCanonicalCompletion _ _ _ _ _ _)) fun _ =>
    .bind (.onlyIf (lives.insertDeadLetter _ _)) fun _ =>
    .bind (lives.updateAttempt _ _ fun _ => ⟨rfl, .inl rfl, .inr rfl, le_rfl⟩) fun _ =>
    .bind (lives.addEvent (by split <;> rfl) (by split <;> rfl) _ _ _ _) fun _ =>
    .bind (.onlyIf (lives.activateChildren _)) fun _ =>
    .bind (.onlyIf (lives.failDescendants _)) fun _ => .pure _

theorem applyCompletionTx (sha256 : Hash) (completion : Completion) :
    Relates related (applyCompletionTx sha256 completion now) := by
  refine .bind (.select Store.attempts _) fun attempt => .bind (.select Store.jobs _) fun job => ?_
  split
  · refine .bind (.require _ _) fun _ => ?_
    split
    · exact .lift _
    · exact .bind (.require _ _) fun _ => .bind (.lift _) fun _ =>
        lives.commitCompletion _ _ _ _ _
  · exact .throw _

omit lives in
theorem batchTx {α β : Type} {body : α → Tx β} (h : ∀ item, Relates related (body item))
    (context : String) (index : Nat) (items : List α) :
    Relates related (batchTx context body index items) := by
  induction items generalizing index with
  | nil => exact .pure []
  | cons item rest ih =>
    refine .bind (.attempt (h item)) fun result => ?_
    cases result with
    | ok value => exact .bind (ih _) fun _ => .pure _
    | error error => exact .bind (.require _ _) fun _ => .bind (ih _) fun _ => .pure _

theorem heartbeat (sha256 : Hash) (workerID : String) (refs : List LeaseRef) (leaseTTL : Int) :
    Relates related (heartbeat sha256 workerID refs now leaseTTL) := by
  refine .mapM fun ref => .bind (.select Store.jobs _) fun job =>
    .bind (lives.updateAttempt _ _ fun _ => ⟨rfl, .inr rfl, .inl rfl, le_max_left _ _⟩)
      fun accepted => ?_
  split
  · refine .bind (.select Store.attempts _) fun attempt => ?_
    cases attempt with
    | none => exact .throw _
    | some attempt => exact .pure _
  · exact .pure _

theorem grantLeases (sha256 : Hash) (request : AcquireRequest) (plan : SchedulePlan)
    (tokens : Nat → Entropy) (index : Nat) (grants : List Grant) :
    Relates related (grantLeases sha256 request now plan tokens index grants) := by
  induction grants generalizing index with
  | nil => exact .pure []
  | cons grant rest ih =>
    refine .bind ?_ fun _ => .bind (ih _) fun _ => .pure _
    unfold grantLease
    split
    · exact .throw _
    · exact .bind (lives.reserveSlots _ _ _) fun _ => .bind (.require _ _) fun _ =>
        .bind (lives.updateJob _ _ fun _ => rfl) fun _ => .bind (.require _ _) fun _ =>
        .bind (.bind (.query _) fun _ => .bind (.require _ _) fun _ =>
          .insert_of _ fun db habsent => lives.newAttempt db _ _ habsent rfl rfl rfl) fun _ =>
        .bind (lives.addEvent rfl rfl _ _ _ _) fun _ => .pure _

theorem acquire (scheduled : Scheduled related) (sha256 : Hash) (request : AcquireRequest)
    (tokens : Nat → Entropy) : Relates related (acquire sha256 request tokens now) := by
  refine .bind (.bind (.query _) fun ranked => ?_) fun plan => ?_
  · dsimp only
    split
    · exact .pure _
    · exact .bind (.bind (.mutate fun db => scheduled.schedulerSeq db _) fun _ => .query _) fun _ =>
        .bind (.query _) fun _ => .bind (.query _) fun _ => .bind (.lift _) fun _ => .pure _
  · cases plan with
    | none => exact .pure _
    | some plan =>
      exact .bind (lives.grantLeases _ _ _ _ _ _) fun _ => .bind (.bind (.forM fun _ =>
        .bind (.update scheduled.queueState _ _ _) fun _ => .pure _) fun _ =>
        .bind (.mutate fun db => scheduled.schedulerCursor db _) fun _ => .bind (.query _) fun _ =>
        .bind (.lift _) fun _ => .bind (.query _) fun _ => .bind (.require _ _) fun _ =>
        .insert scheduled.decisionLog _ _ _) fun _ => .pure _

end Leases

theorem controlJob (audible : Audible now .text related) (command : JobControlCommand) (job : JobRow) :
    Relates related (controlJob command job now) :=
  .bind (.onlyIf (.bind
      (lives.updateAttempt _ _ fun _ => ⟨rfl, .inl rfl, .inr rfl, le_rfl⟩) fun _ =>
      .bind (.require _ _) fun _ => lives.releaseSlots _ _ _)) fun _ =>
    .bind (lives.readySeqIf _) fun _ => .bind (lives.updateJob _ _ fun _ => rfl) fun _ =>
    .bind (.require _ _) fun _ =>
    .bind (.onlyIf (.bind (lives.insertCanonicalCompletion _ _ _ _ _ _) fun _ =>
      .onlyIf (lives.insertDeadLetter _ _))) fun _ =>
    .bind (audible.addEvent rfl _ _ _ _) fun _ => .onlyIf (lives.failDescendants _)

end Lives

section Rewording

variable (reword : ∀ db change, (∀ event : EventRow, Reworded event (change event)) →
  related db { db with events := db.events.map change })
include reword

theorem relates_attributeAdmission (jobID actor : String) :
    Relates related (attributeAdmission jobID actor) := by
  refine .bind (.query _) fun _ => .bind (.mutate fun db => reword db _ fun event => ?_) fun _ =>
    .require _ _
  split <;> exact ⟨_, _, rfl⟩

omit [IsPreorder Database related] in
theorem relates_normalizePayloads (jobID : String) : Relates related (normalizePayloads jobID) := by
  refine .mutate fun db => reword db _ fun event => ?_
  split <;> exact ⟨_, _, rfl⟩

end Rewording

section Workers

variable (workers : ∀ db table, related db { db with workers := table })
include workers

theorem relates_registerWorker (workerID : String) (capacitySlots : Int) :
    Relates related (registerWorker workerID capacitySlots now) :=
  .bindOption (.select Store.workers _) (.insert workers _ _ _) fun _ =>
    .bind (.require _ _) fun _ => .bind (.update workers _ _ _) fun _ => .pure _

theorem relates_heartbeatWorker (workerID : String) : Relates related (heartbeatWorker workerID now) :=
  .bind (.update workers _ _ _) fun _ => .require _ _

end Workers

theorem relates_readIdempotency (tenantID key : String) (kind : RequestKind) (digest : String) :
    Relates related (readIdempotency tenantID key kind digest) :=
  .bindOption (.select idempotencyRequests _) (.pure _) fun _ => .bind (.require _ _) fun _ => .pure _

theorem relates_readControlAction (tenantID key action digest : String) :
    Relates related (readControlAction tenantID key action digest) :=
  .bindOption (.select operationRequests _) (.pure _) fun _ => .bind (.require _ _) fun _ => .pure _

section Submissions

variable (requests : ∀ db table, related db { db with idempotencyRequests := table })
  (moves : Moves now .blob related)
include requests

theorem relates_recordIdempotency (tenantID key : String) (row : IdempotencyRow) :
    Relates related (recordIdempotency tenantID key row) :=
  .bind (.require _ _) fun _ => .insert requests _ _ _

include moves

theorem relates_submitJob (submission : Submission) (entropy : Entropy) :
    Relates related (submitJob options submission entropy now) :=
  .bind (.lift _) fun _ => .bindOption (relates_readIdempotency _ _ _ _)
    (.bind (moves.admitJob _ _ _ _) fun _ =>
      .bind (relates_recordIdempotency requests _ _ _) fun _ => .pure _)
    fun _ => .pure _

theorem relates_submitWorkflow (submission : WorkflowSubmission) (entropy : Nat → Entropy) :
    Relates related (submitWorkflow options submission entropy now) :=
  .bind (.lift _) fun _ => .bindOption (relates_readIdempotency _ _ _ _)
    (.bind (moves.admitWorkflow _ _ _ _ _) fun _ =>
      .bind (relates_recordIdempotency requests _ _ _) fun _ => .pure _)
    fun _ => .pure _

end Submissions

section Triggers

theorem relates_createCronTrigger (writes : Writes now .text related .triggers)
    (submission : CronSubmission) (entropy : Entropy) :
    Relates related (createCronTrigger env options submission entropy now) :=
  .bind (.lift _) fun _ => .bind (.lift _) fun _ => .bind (.lift _) fun _ =>
    .bindOption (relates_readIdempotency _ _ _ _)
      (.bind (.require _ _) fun _ =>
        .bind (.insert_of _ fun db habsent => writes.2 db _ _ habsent) fun _ =>
        .bind (relates_recordIdempotency writes.1 _ _ _) fun _ => .pure _)
      fun _ => .pure _

theorem relates_recordOccurrence (writes : Writes now .text related .occurrences) (triggerID : String)
    (nominal : Time) (jobID : String) (nextFireAt firedAt : Time) :
    Relates related (recordOccurrence triggerID nominal jobID nextFireAt firedAt) :=
  .bind (.query _) fun _ =>
    .bind (.insertIfAbsent_of fun db habsent => writes.1 db _ _ habsent) fun _ =>
    .bind (.require _ _) fun _ =>
    .bind (.update_of fun db => writes.2 db _ _ fun _ => rfl) fun _ => .pure _

theorem relates_recordDelivery (writes : Writes now .text related .deliveries)
    (triggerID stream messageID jobID : String) (deliveredAt : Time) :
    Relates related (recordDelivery triggerID stream messageID jobID deliveredAt) :=
  .bind (.query _) fun _ =>
    .bind (.insertIfAbsent_of fun db habsent => writes db _ _ habsent) fun _ =>
    .bind (.require _ _) fun _ =>
    .bindOption (.select Store.redisDeliveries _) (.throw _) fun _ => .require _ _

end Triggers

section Controls

variable (filed : Filed now related) (audited : Audited now .text related)
  (lives : Lives now .text related)
include filed

theorem relates_insertControlActionWithEvent (haction : action.committedAt = now)
    (hevent : event.occurredAt = now) :
    Relates related (insertControlActionWithEvent action event) :=
  .bind (.require _ _) fun _ =>
    .bind (.insert_of _ fun db habsent =>
      filed.operation db _ _ habsent (congrArg timeToDB haction)) fun _ =>
    .bind (.query _) fun _ => .bind (.require _ _) fun _ =>
    .insert_of _ fun db habsent => filed.audit db _ _ habsent (congrArg timeToDB hevent)

theorem relates_insertControlAction (sha256 : Hash) (h : action.committedAt = now) :
    Relates related (insertControlAction sha256 action) :=
  relates_insertControlActionWithEvent filed h h

theorem relates_recordControlAction (sha256 : Hash) (request : ControlAction) :
    Relates related (recordControlAction sha256 request now) :=
  .bindOption (relates_readControlAction _ _ _ _)
    (.bind (relates_insertControlAction filed _ rfl) fun _ => .pure _) fun _ => .pure _

theorem relates_recordOperatorAction (sha256 : Hash) (request : ControlAction) :
    Relates related (recordOperatorAction sha256 request now) :=
  .bindOption (relates_readControlAction _ _ _ _)
    (.bind (relates_insertControlActionWithEvent filed rfl rfl) fun _ => .pure _) fun _ => .pure _

omit filed
include audited lives

theorem relates_submitJobOperation (sha256 : Hash) (submission : Submission) (entropy : Entropy) :
    Relates related (submitJobOperation sha256 options submission entropy now) :=
  .bind (.lift _) fun _ => .bindOption (relates_readControlAction _ _ _ _)
    (.bind (lives.admitJob _ _ _ _) fun _ =>
      .bind (relates_insertControlAction audited.toFiled _ rfl) fun _ => .pure _)
    fun _ => .pure _

theorem relates_submitDagOperation (sha256 : Hash) (dagID : String)
    (submission : WorkflowSubmission) (entropy : Nat → Entropy) :
    Relates related (submitDagOperation sha256 options dagID submission entropy now) :=
  .bind (.lift _) fun _ => .bindOption (relates_readControlAction _ _ _ _)
    (.bind (lives.admitWorkflow _ _ _ _ _) fun _ => .bind (lives.insertDag rfl _) fun _ =>
      .bind (.forM (lives.insertDagNode dagID)) fun _ =>
      .bind (relates_insertControlAction audited.toFiled _ rfl) fun _ => .pure _)
    fun _ => .pure _

theorem relates_applyJobControl (sha256 : Hash) (command : JobControlCommand) :
    Relates related (applyJobControl sha256 command now) :=
  .bindOption (.select jobs _) (.throw _) fun _ => .bindOption (relates_readControlAction _ _ _ _)
    (.bind (.require _ _) fun _ => .bind (lives.controlJob audited.events _ _) fun _ =>
      .bind (relates_insertControlAction audited.toFiled _ rfl) fun _ => .pure _)
    fun _ => .pure _

omit lives audited in
theorem Links.linkRedriven (links : Links related) (jobID createdID : String) :
    Relates related (linkRedriven jobID createdID) :=
  .bind (.update_of fun db => links db _ _) fun _ => .require _ _

theorem relates_redriveDeadLetterControl (links : Links related) (sha256 : Hash)
    (command : OperatorCommand) (entropy : Entropy) :
    Relates related (redriveDeadLetterControl sha256 options command entropy now) :=
  .bindOption (.select deadLetters _) (.throw _) fun _ => .bindOption (.select jobs _) (.throw _)
    fun _ => .bindOption (relates_readControlAction _ _ _ _)
      (.bind (.require _ _) fun _ => .bind (lives.cloneJob _ _ _) fun _ =>
        .bind (links.linkRedriven _ _) fun _ =>
        .bind (audited.events.addEvent rfl _ _ _ _) fun _ =>
        .bind (relates_insertControlAction audited.toFiled _ rfl) fun _ => .pure _)
      fun _ => .pure _

theorem relates_retryJobControl (sha256 : Hash) (command : OperatorCommand) (entropy : Entropy) :
    Relates related (retryJobControl sha256 options command entropy now) :=
  .bindOption (.select jobs _) (.throw _) fun _ => .bindOption (relates_readControlAction _ _ _ _)
    (.bind (.require _ _) fun _ => .bind (lives.cloneJob _ _ _) fun _ =>
      .bind (audited.events.addEvent rfl _ _ _ _) fun _ =>
      .bind (relates_insertControlAction audited.toFiled _ rfl) fun _ => .pure _)
    fun _ => .pure _

omit audited in
theorem relates_redriveDeadLetter (audited : Audited now .blob related) (links : Links related)
    (sha256 : Hash) (jobID idempotencyKey requestDigest contextActor : String)
    (entropy : Entropy) :
    Relates related (redriveDeadLetter sha256 options jobID idempotencyKey requestDigest
      contextActor entropy now) :=
  .bindOption (.select jobs _) (.throw _) fun _ => .bindOption (.select deadLetters _) (.throw _)
    fun _ => .bindOption (relates_readControlAction _ _ _ _)
      (.bind (.require _ _) fun _ => .bind (lives.cloneJob _ _ _) fun _ =>
        .bind (relates_attributeAdmission audited.events.reworded _ _) fun _ =>
        .bind (links.linkRedriven _ _) fun _ =>
        .bind (audited.events.addEvent rfl _ _ _ _) fun _ =>
        .bind (relates_normalizePayloads audited.events.reworded _) fun _ =>
        .bind (relates_insertControlAction audited.toFiled _ rfl) fun _ => .pure _)
      fun _ => .pure _

end Controls

theorem program_relates (lives : Lives now (admissionStorage op) related)
    (writes : Writes now (noteStorage op) related (area op))
    (links : redrives op = true → Links related) :
    Relates related (op.program env options now) := by
  cases op with
  | submitJob => exact .bind (relates_submitJob writes lives.toMoves _ _) fun _ => .pure _
  | submitWorkflow => exact .bind (relates_submitWorkflow writes lives.toMoves _ _) fun _ => .pure _
  | createCronTrigger =>
    exact .bind (relates_createCronTrigger writes _ _) fun _ => .pure _
  | submitJobOperation =>
    exact .bind (relates_submitJobOperation writes lives _ _ _) fun _ => .pure _
  | submitDagOperation =>
    exact .bind (relates_submitDagOperation writes lives _ _ _ _) fun _ => .pure _
  | recordControlAction =>
    exact .bind (relates_recordControlAction writes.toFiled _ _) fun _ => .pure _
  | recordOperatorAction =>
    exact .bind (relates_recordOperatorAction writes.toFiled _ _) fun _ => .pure _
  | cancelJob => exact .bind (relates_applyJobControl writes lives _ _) fun _ => .pure _
  | forceJobAction => exact .bind (relates_applyJobControl writes lives _ _) fun _ => .pure _
  | redriveDeadLetterControl =>
    exact .bind (relates_redriveDeadLetterControl writes lives (links rfl) _ _ _) fun _ => .pure _
  | retryJobControl => exact .bind (relates_retryJobControl writes lives _ _ _) fun _ => .pure _
  | redriveDeadLetter =>
    exact .bind (relates_redriveDeadLetter lives writes (links rfl) _ _ _ _ _ _) fun _ => .pure _
  | acquire => exact .bind (lives.acquire writes _ _ _) fun _ => .pure _
  | saveDag => exact .bind (lives.saveDag _ _ _ _ _) fun _ => .pure _
  | registerWorker => exact .bind (relates_registerWorker writes _ _) fun _ => .pure _
  | heartbeatWorker => exact .bind (relates_heartbeatWorker writes _) fun _ => .pure _
  | markRunning => exact .bind (lives.markRunningTx _ _ _) fun _ => .pure _
  | markRunningBatch =>
    exact .bind (Lives.batchTx (fun ref => lives.markRunningTx _ _ ref) _ _ _) fun _ => .pure _
  | heartbeat => exact .bind (lives.heartbeat _ _ _ _) fun _ => .pure _
  | complete => exact .bind (lives.applyCompletionTx _ _) fun _ => .pure _
  | completeBatch =>
    exact .bind (Lives.batchTx (fun completion => lives.applyCompletionTx _ completion) _ _ _)
      fun _ => .pure _
  | promoteDue => exact .bind (lives.promoteDue _) fun _ => .pure _
  | reapExpired => exact .bind (lives.reapExpired _) fun _ => .pure _
  | recordOccurrence => exact .bind (relates_recordOccurrence writes _ _ _ _ _) fun _ => .pure _
  | recordDelivery => exact .bind (relates_recordDelivery writes _ _ _ _ _) fun _ => .pure _
  | reopen => exact .pure _

end RailYard.Refinement
