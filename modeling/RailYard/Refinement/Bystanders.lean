import RailYard.Refinement.Writes

/-! What the lives of jobs leave alone. A view that does not see the tables of
jobs, attempts and slots is the same after every program that only moves jobs,
however the program ends. -/
namespace RailYard.Refinement
open Library.Transaction Domain Store

/-- A view that does not see jobs move, nor what surrounds them: triggers and
the shape of DAGs. Of a queue it may see the deficit, and of the
events those of operators. -/
structure Apart {γ : Type} (view : Database → γ) : Prop where
  jobs : ∀ db table, view { db with jobs := table } = view db
  jobDependencies : ∀ db table, view { db with jobDependencies := table } = view db
  jobCompletions : ∀ db table, view { db with jobCompletions := table } = view db
  deadLetters : ∀ db table, view { db with deadLetters := table } = view db
  tenantLimits : ∀ db table, view { db with tenantLimits := table } = view db
  dagRuns : ∀ db table, view { db with dagRuns := table } = view db
  dagJobs : ∀ db table, view { db with dagJobs := table } = view db
  readySeq : ∀ db seq, view { db with readySeq := seq } = view db
  newQueue : ∀ db key row, db.queueState.get? key = none → row.deficit = 0 →
    view { db with queueState := db.queueState.insert key row } = view db
  queueSlots : ∀ db key change, (∀ row : QueueRow, (change row).deficit = row.deficit) →
    view { db with queueState := db.queueState.modify key change } = view db
  event : ∀ db event, isOperator event.eventType = false →
    view { db with events := db.events ++ [event] } = view db

structure Aloof {γ : Type} (view : Database → γ) : Prop extends Apart view where
  attempts : ∀ db table, view { db with attempts := table } = view db

def Deaf {γ : Type} (view : Database → γ) : Prop :=
  ∀ db events, view { db with events := events } = view db

structure Unscheduled {γ : Type} (view : Database → γ) : Prop where
  schedulerSeq : ∀ db seq, view { db with schedulerSeq := seq } = view db
  schedulerCursor : ∀ db cursor, view { db with schedulerCursor := cursor } = view db
  decisionLog : ∀ db table, view { db with decisionLog := table } = view db
  queueState : ∀ db table, view { db with queueState := table } = view db

variable {γ : Type}

theorem Apart.moves (apart : Apart view) (now : Time) (admission : StorageClass := .text) :
    Moves now admission (Unchanged view) where
  newJob db _ _ _ _ := apart.jobs db _
  job db _ _ _ := apart.jobs db _
  jobDependencies := apart.jobDependencies
  completion db _ _ _ _ := apart.jobCompletions db _
  deadLetter db _ _ _ _ := apart.deadLetters db _
  tenantLimits := apart.tenantLimits
  dagRun db _ _ _ _ := apart.dagRuns db _
  dagJob db _ _ _ := apart.dagJobs db _
  readySeq := apart.readySeq
  newQueue := apart.newQueue
  queueSlots := apart.queueSlots
  event db event hplain _ := apart.event db event hplain.1

theorem Apart.links (apart : Apart view) : Links (Unchanged view) :=
  fun db _ _ => apart.deadLetters db _

theorem Aloof.lives (aloof : Aloof view) (now : Time) (admission : StorageClass := .text) :
    Lives now admission (Unchanged view) where
  toMoves := aloof.moves now admission
  newAttempt db _ _ _ _ _ _ := aloof.attempts db _
  attempt db _ _ _ := aloof.attempts db _

theorem Deaf.audible (deaf : Deaf view) (now : Time) : Audible now note (Unchanged view) where
  add db _ _ := deaf db _
  reword db _ _ := deaf db _

theorem Unscheduled.scheduled (unscheduled : Unscheduled view) : Scheduled (Unchanged view) where
  schedulerSeq := unscheduled.schedulerSeq
  schedulerCursor := unscheduled.schedulerCursor
  decisionLog := unscheduled.decisionLog
  queueState := unscheduled.queueState

end RailYard.Refinement
