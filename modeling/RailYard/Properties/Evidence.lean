import RailYard.Evidence.Verdict

/-! A reconciliation that passed, over every manifest, every list of records and
every snapshot. -/
namespace RailYard.Properties
open Library Domain Evidence

section Verdict

variable {sha256 : Hash} {manifest : RunManifest} {submissions : List SubmissionSample}
  {drainSamples : List DrainSample} {snapshot : DatabaseSnapshot}

/-- What the reconciliation certifies: accepted jobs, rows and completions are the
same jobs, each of them once, and each of them succeeded. -/
structure Reconciled (submissions : List SubmissionSample) (snapshot : DatabaseSnapshot) :
    Prop where
  acceptedOnce : (acceptedIDs submissions).Nodup
  jobsOnce : (snapshot.jobs.map DatabaseJob.id).Nodup
  completionsOnce : (snapshot.completions.map DatabaseCompletion.jobID).Nodup
  jobs : ∀ jobID, jobID ∈ snapshot.jobs.map DatabaseJob.id ↔ jobID ∈ acceptedIDs submissions
  completions : ∀ jobID, jobID ∈ snapshot.completions.map DatabaseCompletion.jobID ↔
    jobID ∈ acceptedIDs submissions
  succeeded : ∀ completion ∈ snapshot.completions, completion.state = "SUCCEEDED"
  attempts : ∀ jobID, (attemptsOf snapshot.attempts jobID).Pairwise fun before attempt =>
    before.attemptNo < attempt.attemptNo ∧ before.generation < attempt.generation
  folded : ∀ job ∈ snapshot.jobs, ∃ last,
    (eventsOf snapshot.events job.id).getLast? = some last ∧ last.state = job.state ∧
      last.stateVersion = job.stateVersion

theorem reconciled_of_passed (h : reconciliationPassed
      (analyzeSnapshot sha256 manifest submissions drainSamples snapshot) = true) :
    Reconciled submissions snapshot := by
  have hbalanced := balanced_of_passed h
  refine ⟨hbalanced.acceptedOnce, hbalanced.jobsOnce, hbalanced.completionsOnce, hbalanced.jobs,
    hbalanced.completions, fun completion hmem => hbalanced.succeeded hmem,
    increasing_of_attempts hbalanced.attempts, ?_⟩
  intro job hmem
  refine folded_of_events hbalanced.events (Table.get?_index hbalanced.jobsOnce hmem) ?_
  rw [hbalanced.state hmem]
  decide

end Verdict

section Example

def benchmarkManifest (jobCount : Int) : RunManifest where
  schemaVersion := 1
  runID := "run"
  phase := "warmup"
  scored := false
  config := ⟨jobCount, 1, 1, "", 0, false⟩
  environment := {}
  databaseQuiesced := true

def submitted (index : Int) (jobID : String) : SubmissionSample where
  runID := "run"
  index := index
  idempotencyKey := stableIdempotencyKey List.reverse "run" 0 index
  jobID := jobID
  attemptCount := 1
  ambiguousRetry := false
  duplicate := false
  error := ""

def drained : List DrainSample := [⟨"run", "job", "SUCCEEDED", some 1⟩]

def drainedTwo : List DrainSample := drained ++ [⟨"run", "late", "SUCCEEDED", some 1⟩]

def singleJob : DatabaseSnapshot where
  jobs := [⟨"job", "SUCCEEDED", 1⟩]
  completions := [⟨"job", "SUCCEEDED"⟩]
  attempts := [⟨"job", 1, 1, "SUCCEEDED"⟩]
  events := [⟨1, "job", "SUCCEEDED", 1⟩]
  integrityFailures := []
  foreignKeyFailures := []
  slotReservationFailures := []
  pragmas := (((Table.empty.insert "journal_mode" "wal").insert "synchronous" "2").insert
    "foreign_keys" "1").insert "busy_timeout" "5000"

def twoJobs : DatabaseSnapshot :=
  { singleJob with
    jobs := [⟨"job", "SUCCEEDED", 1⟩, ⟨"late", "SUCCEEDED", 2⟩]
    completions := [⟨"job", "SUCCEEDED"⟩, ⟨"late", "SUCCEEDED"⟩]
    attempts := [⟨"job", 1, 1, "SUCCEEDED"⟩, ⟨"late", 1, 1, "FAILED"⟩, ⟨"late", 2, 2, "SUCCEEDED"⟩]
    events := [⟨1, "late", "RETRYING", 1⟩, ⟨2, "job", "SUCCEEDED", 1⟩, ⟨3, "late", "SUCCEEDED", 2⟩] }

theorem passed_twoJobs : reconciliationPassed (analyzeSnapshot List.reverse (benchmarkManifest 2)
    [submitted 0 "job", submitted 1 "late"] drainedTwo twoJobs) = true := by
  decide +kernel

end Example

theorem reconciled_twoJobs :
    reconciliationPassed (analyzeSnapshot List.reverse (benchmarkManifest 2)
      [submitted 0 "job", submitted 1 "late"] drainedTwo twoJobs) = true ∧
    Reconciled [submitted 0 "job", submitted 1 "late"] twoJobs :=
  ⟨passed_twoJobs, reconciled_of_passed passed_twoJobs⟩

section Declared

variable {sha256 : Hash} {manifest : RunManifest} {submissions : List SubmissionSample}
  {drainSamples : List DrainSample} {snapshot : DatabaseSnapshot}

def succeededJobs (snapshot : DatabaseSnapshot) : List String :=
  ((snapshot.completions.filter fun completion => completion.state = "SUCCEEDED").map
    DatabaseCompletion.jobID).dedup

theorem length_succeededJobs (h : Balanced manifest submissions snapshot) :
    (succeededJobs snapshot).length = (acceptedIDs submissions).length := by
  have hall : (snapshot.completions.filter fun completion => completion.state = "SUCCEEDED") =
      snapshot.completions :=
    List.filter_eq_self.mpr fun completion hmem => decide_eq_true (h.succeeded hmem)
  rw [succeededJobs, hall, h.completionsOnce.dedup]
  exact ((List.perm_ext_iff_of_nodup h.completionsOnce h.acceptedOnce).mpr
    h.completions).length_eq

/-- A reconciliation that passed accounts for the declared jobs exactly if every
record names its job. -/
theorem succeeded_eq_declared_iff (h : reconciliationPassed
      (analyzeSnapshot sha256 manifest submissions drainSamples snapshot) = true) :
    ((succeededJobs snapshot).length : Int) = manifest.config.jobCount ↔
      ∀ submission ∈ submissions, submission.jobID ≠ "" := by
  have hbalanced := balanced_of_passed h
  have hrecords : (submissions.map SubmissionSample.jobID).length = submissions.length :=
    List.length_map _
  rw [length_succeededJobs hbalanced, hbalanced.declared, Int.natCast_inj, acceptedIDs,
    ← hrecords, List.length_filter_eq_length_iff, List.forall_mem_map]
  simp

theorem succeeded_twoJobs :
    reconciliationPassed (analyzeSnapshot List.reverse (benchmarkManifest 2)
      [submitted 0 "job", submitted 1 "late"] drainedTwo twoJobs) = true ∧
    (((succeededJobs twoJobs).length : Int) = (benchmarkManifest 2).config.jobCount ↔
      ∀ submission ∈ [submitted 0 "job", submitted 1 "late"], submission.jobID ≠ "") :=
  ⟨passed_twoJobs, succeeded_eq_declared_iff passed_twoJobs⟩

/-- A record without a job and without an error counts as declared and as nothing
else. -/
theorem passed_unaccounted :
    reconciliationPassed (analyzeSnapshot List.reverse (benchmarkManifest 2)
      [submitted 0 "job", submitted 1 ""] drained singleJob) = true ∧
    ((succeededJobs singleJob).length : Int) ≠ (benchmarkManifest 2).config.jobCount := by
  decide +kernel

end Declared

end RailYard.Properties
