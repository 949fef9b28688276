import RailYard.Library.Index
import RailYard.Store.Submissions

/-! The reconciliation of a benchmark run: what was submitted, what drained and
what the database holds. Nothing is known about any of them. The lists of the
report are findings under one heading each; a report sorts them. -/
namespace RailYard.Evidence
open Library Domain

structure DatabaseJob where
  id : String
  state : String
  stateVersion : Int

structure DatabaseCompletion where
  jobID : String
  state : String

structure DatabaseAttempt where
  jobID : String
  attemptNo : Int
  generation : Int
  state : String

structure DatabaseEvent where
  sequence : Int
  jobID : String
  state : String
  stateVersion : Int

structure DatabaseSnapshot where
  jobs : List DatabaseJob
  completions : List DatabaseCompletion
  attempts : List DatabaseAttempt
  events : List DatabaseEvent
  integrityFailures : List String
  foreignKeyFailures : List String
  slotReservationFailures : List String
  pragmas : Table String String

structure RunConfig where
  jobCount : Int
  workerCount : Int
  workerSlots : Int
  configurationSHA256 : String
  seed : Int
  qualification : Bool

structure EnvironmentManifest where
  gitCommit : String := ""
  gitDirty : Option Bool := none
  binaryDigests : Table String String := .empty
  imageDigests : Table String String := .empty
  goVersion : String := ""
  dockerVersion : String := ""
  composeVersion : String := ""
  hostname : String := ""
  os : String := ""
  architecture : String := ""
  cpuCount : Int := 0
  filesystem : String := ""
  sqlitePragmas : Table String String := .empty
  timezone : String := ""
  operatorDetails : Table String String := .empty

structure RunManifest where
  schemaVersion : Int
  runID : String
  phase : String
  scored : Bool
  config : RunConfig
  environment : EnvironmentManifest
  databaseQuiesced : Bool

structure SubmissionSample where
  runID : String
  index : Int
  idempotencyKey : String
  jobID : String
  attemptCount : Int
  ambiguousRetry : Bool
  duplicate : Bool
  error : String

structure DrainSample where
  runID : String
  jobID : String
  state : String
  terminalAt : Option Time

inductive Concern where
  | lostJob
  | orphanJob
  | duplicateAccepted
  | duplicateCompletion
  | unsuccessfulJob
  | activeJob
  | activeAttempt
  | materialization
  | attempt
  | event
  | slotReservation
  | integrity
  | foreignKey
  | manifest
  deriving DecidableEq

abbrev Audit := Findings (Concern × String)

def note (concern : Concern) (text : String) : Audit Unit := Findings.report (concern, text)

def noteIf (condition : Prop) [Decidable condition] (concern : Concern) (text : String) :
    Audit Unit :=
  Findings.reportIf condition (concern, text)

def schemaVersion : Int := 1

def lookup (values : Table String String) (name : String) : String := (values.get? name).getD ""

def trimSpace (text : String) : String :=
  String.ofList ((text.toList.dropWhile Store.isSpace).reverse.dropWhile Store.isSpace).reverse

def toLower (text : String) : String := String.ofList (text.toList.map Char.toLower)

/-- `%q`, for printable text. -/
def quoted (text : String) : String :=
  "\"" ++ String.ofList (text.toList.flatMap fun character =>
    if character = '"' ∨ character = '\\' then ['\\', character] else [character]) ++ "\""

def stableIdempotencyKey (sha256 : Hash) (runID : String) (seed index : Int) : String :=
  "benchmark-v1-" ++ hexEncode ((sha256 (utf8 ("railyard-benchmark-v1\x00" ++ runID ++ "\x00" ++
    toString seed ++ "\x00" ++ toString index))).take 24)

def terminalState (state : String) : Bool :=
  state = "SUCCEEDED" || state = "FAILED" || state = "DEAD_LETTER"

def validatePragmas (concern : Concern) (message : String → String → String)
    (expected : List (String × List String)) (pragmas : Table String String) : Audit Unit :=
  expected.forM fun entry =>
    let value := toLower (trimSpace (lookup pragmas entry.1))
    noteIf (value ∉ entry.2) concern (message entry.1 (quoted value))

def validateSnapshotPragmas : Table String String → Audit Unit :=
  validatePragmas .integrity (fun name value => "SQLite pragma " ++ name ++ " got " ++ value)
    [("journal_mode", ["wal"]), ("synchronous", ["2"]), ("foreign_keys", ["1"]),
      ("busy_timeout", ["5000"])]

def requiredText (environment : EnvironmentManifest) : List (String × String) :=
  [("git_commit", environment.gitCommit), ("go_version", environment.goVersion),
    ("docker_version", environment.dockerVersion),
    ("compose_version", environment.composeVersion), ("hostname", environment.hostname),
    ("os", environment.os), ("architecture", environment.architecture),
    ("filesystem", environment.filesystem), ("timezone", environment.timezone)]

def validateQualificationEnvironment (manifest : RunManifest) : Audit Unit := do
  let environment := manifest.environment
  (requiredText environment).forM fun entry =>
    noteIf (trimSpace entry.2 = "") .manifest ("qualification environment missing " ++ entry.1)
  noteIf environment.gitDirty.isNone .manifest "qualification environment missing git_dirty"
  noteIf (environment.gitDirty = some true) .manifest "qualification requires a clean git worktree"
  noteIf (environment.cpuCount < 1) .manifest "qualification environment missing cpu_count"
  noteIf (environment.binaryDigests.keys.length < 2) .manifest
    "qualification environment missing binary_digests"
  noteIf (environment.imageDigests.keys.length < 10) .manifest
    "qualification environment missing image_digests"
  noteIf (environment.sqlitePragmas.keys.length < 4) .manifest
    "qualification environment missing sqlite_pragmas"
  noteIf (manifest.config.configurationSHA256 = "") .manifest
    "qualification run missing configuration_sha256"
  noteIf (manifest.config.jobCount ≠ 5000) .manifest "qualification job_count must be 5000"
  noteIf (manifest.config.workerCount ≠ 8) .manifest "qualification worker_count must be 8"
  noteIf (manifest.config.workerSlots ≠ 256) .manifest "qualification worker_slots must be 256"
  noteIf (trimSpace (lookup environment.operatorDetails "worker_count_evidence") = "") .manifest
    "qualification environment missing worker_count_evidence"
  validatePragmas .manifest (fun name value =>
      "qualification sqlite_pragmas." ++ name ++ " has unsupported value " ++ value)
    [("journal_mode", ["wal"]), ("synchronous", ["full", "2"]), ("foreign_keys", ["on", "1"]),
      ("busy_timeout", ["5000"])] environment.sqlitePragmas

def validateSubmission (sha256 : Hash) (manifest : RunManifest) (seen : List Int × List String)
    (submission : SubmissionSample) : Audit (List Int × List String) := do
  let name := "submission " ++ toString submission.index
  noteIf (submission.runID ≠ manifest.runID) .manifest (name ++ " has a different run_id")
  noteIf (submission.error ≠ "") .manifest (name ++ " failed: " ++ submission.error)
  noteIf (submission.duplicate = true ∧ submission.ambiguousRetry = false) .manifest
    (name ++ " reused an existing admission")
  noteIf (submission.attemptCount < 1) .manifest (name ++ " has no HTTP attempts")
  noteIf (submission.index ∈ seen.1) .manifest
    ("duplicate submission index " ++ toString submission.index)
  noteIf (submission.idempotencyKey ∈ seen.2) .manifest
    ("duplicate idempotency key at index " ++ toString submission.index)
  noteIf (submission.idempotencyKey ≠
      stableIdempotencyKey sha256 manifest.runID manifest.config.seed submission.index) .manifest
    (name ++ " has an unstable idempotency key")
  return (submission.index :: seen.1, submission.idempotencyKey :: seen.2)

def acceptedIDs (submissions : List SubmissionSample) : List String :=
  (submissions.map SubmissionSample.jobID).filter fun jobID => jobID ≠ ""

def validateDrain (manifest : RunManifest) (submitted drained : List String)
    (sample : DrainSample) : Audit (List String) := do
  noteIf (sample.runID ≠ manifest.runID) .manifest
    ("drain sample " ++ sample.jobID ++ " has a different run_id")
  noteIf (sample.jobID ∈ drained) .manifest ("duplicate drain sample for " ++ sample.jobID)
  noteIf (sample.jobID ∉ submitted) .manifest
    ("drain sample contains unsubmitted job " ++ sample.jobID)
  noteIf (terminalState sample.state = false ∨ sample.terminalAt = none) .manifest
    ("drain sample " ++ sample.jobID ++ " is not terminal")
  return sample.jobID :: drained

def validateManifest (sha256 : Hash) (manifest : RunManifest)
    (submissions : List SubmissionSample) (drainSamples : List DrainSample) : Audit Unit := do
  noteIf (manifest.schemaVersion ≠ schemaVersion) .manifest "unsupported manifest schema version"
  noteIf (manifest.runID = "") .manifest "run_id is empty"
  noteIf (manifest.phase ≠ "warmup" ∧ manifest.phase ≠ "measured") .manifest
    "phase must be warmup or measured"
  noteIf (manifest.scored ≠ (manifest.phase = "measured")) .manifest
    "scored must be true only for measured runs"
  noteIf (manifest.config.jobCount ≠ submissions.length) .manifest
    ("manifest job_count=" ++ toString manifest.config.jobCount ++ ", submission records=" ++
      toString submissions.length)
  noteIf (manifest.databaseQuiesced = false) .manifest
    "database snapshot was not confirmed quiescent"
  let _ ← submissions.foldlM (validateSubmission sha256 manifest) ([], [])
  let submitted := (acceptedIDs submissions).dedup
  let drained ← drainSamples.foldlM (validateDrain manifest submitted) []
  submitted.forM fun jobID =>
    noteIf (jobID ∉ drained) .manifest ("submitted job " ++ jobID ++ " lacks a drain sample")
  if manifest.config.qualification then validateQualificationEnvironment manifest else pure ()

def acceptSubmission (accepted : Table String String) (jobID : String) :
    Audit (Table String String) := do
  noteIf (accepted.get? jobID).isSome .duplicateAccepted jobID
  return accepted.put jobID jobID

abbrev Jobs := Table String DatabaseJob

def analyzeJob (accepted : Table String String) (jobs : Jobs) (job : DatabaseJob) :
    Audit Jobs := do
  noteIf (accepted.get? job.id).isNone .orphanJob job.id
  noteIf (terminalState job.state = false) .activeJob job.id
  return jobs.put job.id job

def analyzeMaterialized (jobs : Jobs) (completion : DatabaseCompletion) : Audit Unit :=
  match jobs.get? completion.jobID with
  | none => note .materialization ("completion " ++ completion.jobID ++ " has no jobs row")
  | some job => noteIf (job.state ≠ completion.state) .materialization
      ("completion " ++ completion.jobID ++ " state " ++ completion.state ++
        " disagrees with jobs state " ++ job.state)

abbrev Completions := Table String DatabaseCompletion

def analyzeCompletion (jobs : Jobs) (completions : Completions)
    (completion : DatabaseCompletion) : Audit Completions := do
  analyzeMaterialized jobs completion
  return completions.put completion.jobID completion

/-- The outcome of an accepted job. One without a row is on the list of lost jobs
already. -/
def analyzeOutcome (jobs : Jobs) (completions : Completions) (jobID : String) : Audit Unit :=
  match completions.get? jobID with
  | none => noteIf (jobs.get? jobID).isSome .lostJob jobID
  | some completion => noteIf (completion.state ≠ "SUCCEEDED") .unsuccessfulJob jobID

def completionCount (completions : List DatabaseCompletion) (jobID : String) : Nat :=
  (completions.filter fun completion => completion.jobID = jobID).length

abbrev Attempts := Table String DatabaseAttempt

def analyzeAttempt (last : Attempts) (attempt : DatabaseAttempt) : Audit Attempts := do
  let before := last.get? attempt.jobID
  noteIf (attempt.attemptNo ≤ (before.map DatabaseAttempt.attemptNo).getD 0) .attempt
    (attempt.jobID ++ " attempt numbers are not strictly increasing")
  noteIf (attempt.generation ≤ (before.map DatabaseAttempt.generation).getD 0) .attempt
    (attempt.jobID ++ " lease generations are not strictly increasing")
  noteIf (attempt.state = "LEASED" ∨ attempt.state = "RUNNING") .activeAttempt
    (attempt.jobID ++ "/" ++ toString attempt.attemptNo ++ "/" ++ toString attempt.generation)
  return last.put attempt.jobID attempt

def analyzeAttempts (attempts : List DatabaseAttempt) : Audit Unit := do
  let _ ← attempts.foldlM analyzeAttempt .empty

abbrev Events := Table String DatabaseEvent

def lastVersion (last : Events) (jobID : String) : Int :=
  ((last.get? jobID).map DatabaseEvent.stateVersion).getD 0

def lastState (last : Events) (jobID : String) : String :=
  ((last.get? jobID).map DatabaseEvent.state).getD ""

def analyzeEvent (last : Events) (event : DatabaseEvent) : Audit Events := do
  noteIf (event.stateVersion ≠ int64 (lastVersion last event.jobID + 1)) .event
    (event.jobID ++ " event version got " ++ toString event.stateVersion ++ " after " ++
      toString (lastVersion last event.jobID))
  return last.put event.jobID event

def analyzeEvents (events : List DatabaseEvent) (jobs : Jobs) : Audit Unit := do
  events.zipIdx.forM fun entry =>
    noteIf (entry.1.sequence ≠ entry.2 + 1) .event
      ("event sequence got " ++ toString entry.1.sequence ++ ", want " ++ toString (entry.2 + 1))
  let last ← events.foldlM analyzeEvent .empty
  jobs.rows.forM fun entry =>
    noteIf (lastState last entry.1 ≠ entry.2.state ∨
        lastVersion last entry.1 ≠ entry.2.stateVersion) .event
      (entry.1 ++ " event fold is " ++ lastState last entry.1 ++ "/" ++
        toString (lastVersion last entry.1) ++ ", jobs row is " ++ entry.2.state ++ "/" ++
        toString entry.2.stateVersion)

def analyzeAll (sha256 : Hash) (manifest : RunManifest) (submissions : List SubmissionSample)
    (drainSamples : List DrainSample) (snapshot : DatabaseSnapshot) : Audit Nat := do
  snapshot.integrityFailures.forM (note .integrity)
  snapshot.foreignKeyFailures.forM (note .foreignKey)
  snapshot.slotReservationFailures.forM (note .slotReservation)
  validateSnapshotPragmas snapshot.pragmas
  validateManifest sha256 manifest submissions drainSamples
  let accepted ← (acceptedIDs submissions).foldlM acceptSubmission .empty
  let jobs ← snapshot.jobs.foldlM (analyzeJob accepted) .empty
  accepted.keys.forM fun jobID => noteIf (jobs.get? jobID).isNone .lostJob jobID
  let completions ← snapshot.completions.foldlM (analyzeCompletion jobs) .empty
  completions.keys.forM fun jobID =>
    noteIf (completionCount snapshot.completions jobID > 1) .duplicateCompletion jobID
  accepted.keys.forM (analyzeOutcome jobs completions)
  analyzeAttempts snapshot.attempts
  analyzeEvents snapshot.events jobs
  return accepted.keys.length

structure ReconciliationReport where
  operationalError : String := ""
  acceptedCount : Nat
  databaseJobCount : Nat
  terminalCount : Nat
  succeededCount : Nat
  failedCount : Nat
  deadLetterCount : Nat
  activeJobCount : Nat
  activeAttemptCount : Nat
  durableLeaseGrantCount : Nat
  repeatedAttemptCount : Nat
  lostJobIDs : List String
  orphanJobIDs : List String
  duplicateAcceptedJobIDs : List String
  duplicateCompletionJobIDs : List String
  unsuccessfulJobIDs : List String
  activeJobIDs : List String
  activeAttemptIDs : List String
  materializationViolations : List String
  attemptViolations : List String
  eventViolations : List String
  slotReservationViolations : List String
  integrityFailures : List String
  foreignKeyFailures : List String
  manifestViolations : List String

def countState (completions : List DatabaseCompletion) (state : String) : Nat :=
  (completions.filter fun completion => completion.state = state).length

def repeatedAttempts (attempts : List DatabaseAttempt) : Nat :=
  ((attempts.map DatabaseAttempt.jobID).dedup.map fun jobID =>
    (attempts.filter fun attempt => attempt.jobID = jobID).length - 1).sum

def sorted (found : List (Concern × String)) (concern : Concern) : List String :=
  ((found.filter fun finding => finding.1 = concern).map Prod.snd).insertionSort (· ≤ ·)

def compacted (found : List (Concern × String)) (concern : Concern) : List String :=
  (sorted found concern).dedup

def analyzeSnapshot (sha256 : Hash) (manifest : RunManifest)
    (submissions : List SubmissionSample) (drainSamples : List DrainSample)
    (snapshot : DatabaseSnapshot) : ReconciliationReport :=
  let audit := analyzeAll sha256 manifest submissions drainSamples snapshot
  { acceptedCount := audit.value
    databaseJobCount := snapshot.jobs.length
    terminalCount := snapshot.completions.length
    succeededCount := countState snapshot.completions "SUCCEEDED"
    failedCount := countState snapshot.completions "FAILED"
    deadLetterCount := countState snapshot.completions "DEAD_LETTER"
    activeJobCount := (sorted audit.found .activeJob).length
    activeAttemptCount := (sorted audit.found .activeAttempt).length
    durableLeaseGrantCount := snapshot.attempts.length
    repeatedAttemptCount := repeatedAttempts snapshot.attempts
    lostJobIDs := compacted audit.found .lostJob
    orphanJobIDs := compacted audit.found .orphanJob
    duplicateAcceptedJobIDs := compacted audit.found .duplicateAccepted
    duplicateCompletionJobIDs := compacted audit.found .duplicateCompletion
    unsuccessfulJobIDs := compacted audit.found .unsuccessfulJob
    activeJobIDs := sorted audit.found .activeJob
    activeAttemptIDs := sorted audit.found .activeAttempt
    materializationViolations := compacted audit.found .materialization
    attemptViolations := compacted audit.found .attempt
    eventViolations := compacted audit.found .event
    slotReservationViolations := sorted audit.found .slotReservation
    integrityFailures := sorted audit.found .integrity
    foreignKeyFailures := sorted audit.found .foreignKey
    manifestViolations := compacted audit.found .manifest }

def reconciliationPassed (report : ReconciliationReport) : Bool :=
  report.operationalError = "" &&
    report.acceptedCount > 0 &&
    report.acceptedCount = report.databaseJobCount &&
    report.acceptedCount = report.terminalCount &&
    report.acceptedCount = report.succeededCount &&
    report.failedCount = 0 &&
    report.deadLetterCount = 0 &&
    report.activeJobCount = 0 &&
    report.activeAttemptCount = 0 &&
    report.lostJobIDs.length = 0 &&
    report.orphanJobIDs.length = 0 &&
    report.duplicateAcceptedJobIDs.length = 0 &&
    report.duplicateCompletionJobIDs.length = 0 &&
    report.unsuccessfulJobIDs.length = 0 &&
    report.materializationViolations.length = 0 &&
    report.attemptViolations.length = 0 &&
    report.eventViolations.length = 0 &&
    report.slotReservationViolations.length = 0 &&
    report.integrityFailures.length = 0 &&
    report.foreignKeyFailures.length = 0 &&
    report.manifestViolations.length = 0

end RailYard.Evidence
