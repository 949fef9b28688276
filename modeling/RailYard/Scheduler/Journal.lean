import RailYard.Scheduler.DecisionLog
import RailYard.Scheduler.Rounds

/-! Logs of decisions that were made one after the other: each decision starts
from the cursor and the deficits that the log before it leaves, and its record
is chained to the head of that log. -/
namespace RailYard.Scheduler
open Domain

variable {record : Record}

def headHash (log : List Record) : String := (log.getLast?.map Record.hash).getD ""

def latestCursor (log : List Record) : Int :=
  (log.getLast?.map fun record => record.decision.nextCursor).getD 0

def Decision.deficit? (decision : Decision) (key : String × String) : Option Int :=
  (decision.queues.find? fun queue => (queue.tenantID, queue.queue) = key).map QueueState.deficit

def latestDeficit (log : List Record) (key : String × String) : Int :=
  (log.reverse.findSome? fun record => record.decision.deficit? key).getD 0

def grantCount (log : List Record) (jobID : String) : Nat :=
  (log.flatMap fun record => record.decision.grants).countP fun grant => grant.jobID = jobID

/-- `record` is what a decision on `input` adds to `log`. -/
structure Entered (sha256 : Hash) (log : List Record) (input : Snapshot) (record : Record) :
    Prop where
  decided : decide input = .ok record.decision
  recorded : newRecord sha256 (headHash log) input record.decision = .ok record
  sequence : input.sequence = log.length + 1
  cursor : input.cursor = latestCursor log
  deficits : ∀ queue ∈ input.queues,
    queue.deficit = latestDeficit log (queue.tenantID, queue.name)

inductive Committed (sha256 : Hash) : List Record → Prop
  | nil : Committed sha256 []
  | snoc {log : List Record} {input : Snapshot} {record : Record} (before : Committed sha256 log)
      (entered : Entered sha256 log input record) : Committed sha256 (log ++ [record])

@[simp] theorem headHash_append (log : List Record) (record : Record) :
    headHash (log ++ [record]) = record.hash := by
  simp [headHash]

@[simp] theorem latestCursor_append (log : List Record) (record : Record) :
    latestCursor (log ++ [record]) = record.decision.nextCursor := by
  simp [latestCursor]

@[simp] theorem latestDeficit_append (log : List Record) (record : Record)
    (key : String × String) : latestDeficit (log ++ [record]) key =
      (record.decision.deficit? key).getD (latestDeficit log key) := by
  unfold latestDeficit
  rw [List.reverse_append, List.reverse_singleton, List.singleton_append, List.findSome?_cons]
  cases record.decision.deficit? key <;> rfl

@[simp] theorem grantCount_append (log : List Record) (record : Record) (jobID : String) :
    grantCount (log ++ [record]) jobID = grantCount log jobID +
      (record.decision.grants.countP fun grant => grant.jobID = jobID) := by
  simp [grantCount]

/-- What `newRecord` fills in. -/
structure RecordOf (sha256 : Hash) (previous : String) (input : Snapshot) (record : Record) :
    Prop where
  schema : record.schemaVersion = schemaVersion
  sequence : record.sequence = input.sequence
  agree : input.sequence = record.decision.sequence
  chained : record.previousHash = previous
  canonical : record.input = canonicalSnapshot input
  hash : record.hash = hexDigest sha256
    (hashMaterial input.sequence previous (canonicalSnapshot input) record.decision).render

theorem recordOf_newRecord (h : newRecord sha256 previous input decision = .ok record) :
    RecordOf sha256 previous input record ∧ record.decision = decision := by
  unfold newRecord at h
  split at h
  · cases h
  · rename_i hagree
    obtain rfl := Except.ok.inj h
    exact ⟨⟨rfl, rfl, not_not.mp hagree, rfl, rfl, rfl⟩, rfl⟩

theorem Entered.recordOf (h : Entered sha256 log input record) :
    RecordOf sha256 (headHash log) input record :=
  (recordOf_newRecord h.recorded).1

theorem Entered.input_deficits (h : Entered sha256 log input record)
    (hqueue : queue ∈ record.input.queues) :
    queue.deficit = latestDeficit log (queue.tenantID, queue.name) := by
  rw [h.recordOf.canonical] at hqueue
  obtain ⟨original, horiginal, rfl⟩ := mem_cloneAndSort.mp hqueue
  exact h.deficits original horiginal

theorem Entered.input_cursor (h : Entered sha256 log input record) :
    record.input.cursor = latestCursor log := by
  rw [h.recordOf.canonical]
  exact h.cursor

theorem Entered.record_sequence (h : Entered sha256 log input record) :
    record.sequence = log.length + 1 :=
  h.recordOf.sequence.trans h.sequence

theorem Committed.entered (h : Committed sha256 log) (hsplit : log = earlier ++ record :: later) :
    Committed sha256 earlier ∧ ∃ input, Entered sha256 earlier input record := by
  induction h generalizing later with
  | nil => cases earlier <;> cases hsplit
  | @snoc log input last before entered ih =>
    rcases List.eq_nil_or_concat later with rfl | ⟨middle, final, rfl⟩
    · obtain ⟨rfl, hlast⟩ := List.append_inj' hsplit rfl
      obtain rfl := (List.cons.inj hlast).1
      exact ⟨before, input, entered⟩
    · rw [List.concat_eq_append, ← List.cons_append, ← List.append_assoc] at hsplit
      exact ih (List.append_inj' hsplit rfl).1

/-- The numbers `1` to `n`. -/
def firstNumbers (n : Nat) : List Int := (List.range n).map fun index : Nat => (index : Int) + 1

theorem firstNumbers_succ (n : Nat) : firstNumbers (n + 1) = firstNumbers n ++ [(n : Int) + 1] := by
  simp [firstNumbers, List.range_succ]

theorem Committed.sequences (h : Committed sha256 log) :
    log.map Record.sequence = firstNumbers log.length := by
  induction h with
  | nil => rfl
  | snoc before entered ih =>
    rw [List.map_append, ih, List.length_append, List.length_singleton, firstNumbers_succ,
      List.map_singleton, entered.record_sequence]

theorem ascending_firstNumbers (n : Nat) : (firstNumbers n).Pairwise (· < ·) := by
  unfold firstNumbers
  rw [List.pairwise_map]
  refine List.pairwise_lt_range.imp ?_
  intro first second hless
  omega

end RailYard.Scheduler
