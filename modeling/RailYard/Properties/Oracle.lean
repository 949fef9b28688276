import RailYard.Oracle.Passes

/-! A passing report of the oracle, over every snapshot and every manifest. -/
namespace RailYard.Properties
open Library Library.Findings Oracle

section Verdict

variable {data : Snapshot} {accepted : List AcceptedRecord} {options : Options}

theorem silent_of_passed (h : (analyze data accepted options).passed = true) :
    (analyzeAll data accepted options.expectedJobs).Silent :=
  List.length_eq_zero_iff.mp (of_decide_eq_true h)

abbrev jobsOf (data : Snapshot) : Jobs := Table.index JobRow.id data.jobs

abbrev ledgerOf (data : Snapshot) : Completions :=
  Table.index CompletionRow.jobID data.completions

abbrev manifestOf (accepted : List AcceptedRecord) : Manifest :=
  Table.index AcceptedRecord.jobID accepted

/-- The passes of the oracle, each over the maps that those before it made. -/
structure Passes (data : Snapshot) (accepted : List AcceptedRecord) : Prop where
  manifest : (accepted.map AcceptedRecord.jobID).Nodup
  jobs : JobsSound data.jobs (manifestOf accepted)
  completions : CompletionsSound data.completions (manifestOf accepted) (jobsOf data)
  attempts : AttemptsSound data.attempts (jobsOf data) (ledgerOf data)
  events : EventsSound data.events (jobsOf data)
  slots : SlotsSound data.tenants data.queues (jobsOf data)

theorem passes_of_passed (h : (analyze data accepted options).passed = true) :
    Passes data accepted := by
  have hall := silent_of_passed h
  simp only [analyzeAll, silent_bind, value_analyzeManifest, value_analyzeJobs,
    value_analyzeCompletions] at hall
  obtain ⟨_, hmanifest, hjobs, hcompletions, _, hattempts, hevents, _, hslots, _⟩ := hall
  exact ⟨nodup_of_silent hmanifest, jobs_of_silent hjobs, completions_of_silent hcompletions,
    attempts_of_silent hattempts, silent_analyzeEvents.mp hevents, slots_of_silent hslots⟩

theorem mem_accepted_iff (jobID : String) : jobID ∈ accepted.map AcceptedRecord.jobID ↔
      ((manifestOf accepted).get? jobID).isSome = true := by
  rw [Table.isSome_index, List.mem_map]

theorem Passes.completed (h : Passes data accepted) (hjob : job ∈ data.jobs) :
    ∃ completion, (ledgerOf data).get? job.id = some completion ∧ Agrees completion job := by
  have haccepted := (h.jobs.covered job.id).mp (List.mem_map_of_mem hjob)
  obtain ⟨completion, hmem, hid⟩ := List.mem_map.mp ((h.completions.covered job.id).mpr haccepted)
  obtain ⟨found, hfound, hagrees⟩ := h.completions.agrees completion hmem
  rw [hid, Table.get?_index h.jobs.once hjob, Option.some.injEq] at hfound
  rw [← hid]
  exact ⟨completion, Table.get?_index h.completions.once hmem, hfound ▸ hagrees⟩

theorem Passes.succeeded (h : Passes data accepted) (hjob : job ∈ data.jobs) :
    job.state = "SUCCEEDED" := by
  obtain ⟨completion, _, hagrees⟩ := h.completed hjob
  rw [← hagrees.state, hagrees.succeeded]

theorem Passes.idle (h : Passes data accepted) (jobID : String) (job : JobRow)
    (hjob : (jobsOf data).get? jobID = some job) : holdsSlots job = false := by
  rw [holdsSlots, h.succeeded (Table.mem_of_get?_index hjob).1]
  decide

/-- What a passing report certifies: the accepted jobs, the rows and the
completions are the same jobs, each of them succeeded and let go of everything
it held. -/
structure Certified (data : Snapshot) (accepted : List AcceptedRecord) : Prop where
  acceptedOnce : (accepted.map AcceptedRecord.jobID).Nodup
  jobsOnce : (data.jobs.map JobRow.id).Nodup
  completionsOnce : (data.completions.map CompletionRow.jobID).Nodup
  jobs : ∀ jobID, jobID ∈ data.jobs.map JobRow.id ↔ jobID ∈ accepted.map AcceptedRecord.jobID
  completions : ∀ jobID, jobID ∈ data.completions.map CompletionRow.jobID ↔
    jobID ∈ accepted.map AcceptedRecord.jobID
  outcome : ∀ completion ∈ data.completions, completion.state = "SUCCEEDED"
  succeeded : ∀ job ∈ data.jobs, job.state = "SUCCEEDED"
  inactive : ∀ job ∈ data.jobs, terminalState job.state = true
  closed : ∀ attempt ∈ data.attempts, activeAttemptState attempt.state = false
  versions : ∀ job ∈ data.jobs, ∀ (place : Nat) (event : EventRow),
    (eventsOf data.events job.id)[place]? = some event → event.stateVersion = place + 1
  folded : ∀ job ∈ data.jobs, ∃ last, (eventsOf data.events job.id).getLast? = some last ∧
    last.state = job.state ∧ last.stateVersion = job.stateVersion
  fenced : ∀ jobID, (attemptsOf data.attempts jobID).Pairwise fun before attempt =>
    before.attemptNo < attempt.attemptNo ∧ before.leaseGeneration < attempt.leaseGeneration
  tenants : ∀ tenant ∈ data.tenants, tenant.activeSlots = 0
  queues : ∀ queue ∈ data.queues, queue.activeSlots = 0

theorem certified_of_passed (h : (analyze data accepted options).passed = true) :
    Certified data accepted := by
  have hpasses := passes_of_passed h
  have hlogged := fun job (hjob : job ∈ data.jobs) =>
    hpasses.events.logged job.id job (Table.get?_index hpasses.jobs.once hjob)
  refine {
    acceptedOnce := hpasses.manifest
    jobsOnce := hpasses.jobs.once
    completionsOnce := hpasses.completions.once
    jobs := fun jobID => (hpasses.jobs.covered jobID).trans (mem_accepted_iff jobID).symm
    completions := fun jobID =>
      (hpasses.completions.covered jobID).trans (mem_accepted_iff jobID).symm
    succeeded := fun job hjob => hpasses.succeeded hjob
    closed := hpasses.attempts.closed
    versions := fun job hjob => (hlogged job hjob).2.versions
    fenced := fun jobID => (hpasses.attempts.fenced jobID).increasing
    outcome := ?outcome
    inactive := ?inactive
    folded := ?folded
    tenants := ?tenants
    queues := ?queues }
  case outcome =>
    intro completion hmem
    obtain ⟨_, _, hagrees⟩ := hpasses.completions.agrees completion hmem
    exact hagrees.succeeded
  case inactive =>
    intro job hjob
    rw [hpasses.succeeded hjob]
    rfl
  case folded =>
    intro job hjob
    obtain ⟨hne, hlog⟩ := hlogged job hjob
    obtain ⟨last, hlast⟩ := Option.isSome_iff_exists.mp (List.getLast?_isSome.mpr hne)
    exact ⟨last, hlast, hlog.folded last hlast⟩
  case tenants =>
    intro tenant hmem
    rw [hpasses.slots.tenants tenant hmem, slotsHeld_eq_zero hpasses.idle]
  case queues =>
    intro queue hmem
    rw [hpasses.slots.queues queue hmem, slotsHeld_eq_zero hpasses.idle]

end Verdict

section Example

def hexText (size : Nat) : String := String.ofList (List.replicate size 'a')

def finishedJob (attempts : Nat) (version : Int) : JobRow where
  id := hexText 32
  tenantID := "tenant"
  queue := "queue"
  slotCost := 1
  payloadJSON := "\x7b\"type\":\"noop\"\x7d"
  retryJSON := "\x7b\"max_attempts\":3\x7d"
  state := "SUCCEEDED"
  attemptNo := attempts
  stateVersion := version
  leaseGeneration := attempts
  readySeq := 0
  executionKey := "execution"
  createdAt := 1
  updatedAt := 4
  terminalAt := some 4
  failureJSON := none

def eventAt (version : Int) (type state : String) : EventRow :=
  ⟨version, hexText 32, type, state, version, version, "\x7b\x7d"⟩

def finishedAttempt : AttemptRow where
  jobID := hexText 32
  attemptNo := 1
  workerID := "worker"
  leaseGeneration := 1
  tokenHash := hexText 64
  state := "SUCCEEDED"
  leasedAt := 2
  heartbeatAt := 2
  expiresAt := 9
  startedAt := some 3
  completedAt := some 4
  failureJSON := none
  completionRequestDigest := some (hexText 64)
  receiptState := some "SUCCEEDED"
  receiptStateVersion := some 4
  receiptCommittedAt := some 4

def finished (attempts : List AttemptRow) (events : List EventRow) : Snapshot where
  integrity := []
  foreignKeys := []
  journalMode := "wal"
  synchronous := 2
  foreignKeysOn := 1
  busyTimeout := 5000
  jobs := [finishedJob attempts.length events.length]
  completions := [⟨hexText 32, "SUCCEEDED", events.length, attempts.length, hexText 64, none, 4⟩]
  attempts := attempts
  events := events
  idempotency := [⟨"tenant", "key", "job", "digest", some (hexText 32),
    "\x7b\"id\":\"" ++ hexText 32 ++ "\"\x7d", 1⟩]
  dependencies := []
  tenants := [⟨"tenant", 10, 10, 0⟩]
  queues := [⟨"tenant", "queue", 1, 0⟩]
  counters := [⟨"ready_seq", 1⟩]
  migrations := [⟨1, "initial", hexText 64, 1⟩]

def acceptedJob : AcceptedRecord := ⟨1, "key", hexText 32, "tenant", 1⟩

def executed : Snapshot :=
  finished [finishedAttempt] [eventAt 1 "job_admitted" "PENDING",
    eventAt 2 "lease_acquired" "SCHEDULED", eventAt 3 "attempt_started" "RUNNING",
    eventAt 4 "job_completed" "SUCCEEDED"]

theorem passed_executed : (analyze executed [acceptedJob] ⟨1, 10⟩).passed = true := by
  decide +kernel

end Example

theorem certified_executed : (analyze executed [acceptedJob] ⟨1, 10⟩).passed = true ∧
    Certified executed [acceptedJob] :=
  ⟨passed_executed, certified_of_passed passed_executed⟩

section Execution

variable {data : Snapshot} {accepted : List AcceptedRecord} {options : Options}

/-- The last attempt of a job succeeded, is the one its completion names, and has
the receipt of that completion. -/
def Executed (data : Snapshot) (jobID : String) : Prop :=
  ∃ completion ∈ data.completions, completion.jobID = jobID ∧
    ∃ last, (attemptsOf data.attempts jobID).getLast? = some last ∧
      last.state = "SUCCEEDED" ∧ last.attemptNo = completion.attemptNo ∧
      receiptFields last = 4 ∧ last.receiptCommittedAt = some completion.committedAt

theorem Passes.executed (h : Passes data accepted) (hmem : completion ∈ data.completions)
    (hpos : 0 < completion.attemptNo) :
    Executed data completion.jobID := by
  obtain ⟨job, hjob, hagrees⟩ := h.completions.agrees completion hmem
  obtain ⟨last, hlast, hsettles⟩ := h.attempts.settled completion.jobID job completion hjob
    (Table.get?_index h.completions.once hmem) hagrees.attempt hpos
  have hstate := hsettles.state
  rw [hagrees.succeeded, attemptMatchesCompletion, if_pos rfl, decide_eq_true_eq] at hstate
  have hreceipt := h.attempts.receipts last
    (List.mem_filter.mp (List.mem_of_getLast? hlast)).1
  have hsome : receiptFields last ≠ 0 := by
    unfold receiptFields
    rw [hsettles.receipt]
    simp
  exact ⟨completion, hmem, rfl, last, hlast, hstate, hsettles.number, by omega,
    hsettles.receipt⟩

/-- In a passing report a job was executed exactly if its completion names an
attempt. -/
theorem executed_iff_attempted (h : (analyze data accepted options).passed = true) :
    ∀ record ∈ accepted, Executed data record.jobID ↔
      ∃ completion ∈ data.completions, completion.jobID = record.jobID ∧
        0 < completion.attemptNo := by
  have hpasses := passes_of_passed h
  intro record _
  constructor
  · rintro ⟨completion, hmem, hid, last, hlast, _, hnumber, _⟩
    have hattempt := hpasses.attempts.numbered last
      (List.mem_filter.mp (List.mem_of_getLast? hlast)).1
    exact ⟨completion, hmem, hid, hnumber ▸ hattempt⟩
  · rintro ⟨completion, hmem, hid, hpos⟩
    rw [← hid]
    exact hpasses.executed hmem hpos

theorem executed_in_example : (analyze executed [acceptedJob] ⟨1, 10⟩).passed = true ∧
    (Executed executed (hexText 32) ↔ ∃ completion ∈ executed.completions,
      completion.jobID = hexText 32 ∧ 0 < completion.attemptNo) :=
  ⟨passed_executed, executed_iff_attempted passed_executed acceptedJob (List.mem_singleton_self _)⟩

/-- A job that was admitted as succeeded passes without any attempt. -/
theorem passed_unexecuted :
    (analyze (finished [] [eventAt 1 "job_admitted" "SUCCEEDED"]) [acceptedJob]
      ⟨1, 10⟩).passed = true ∧
    ¬Executed (finished [] [eventAt 1 "job_admitted" "SUCCEEDED"]) acceptedJob.jobID := by
  refine ⟨by decide +kernel, ?_⟩
  rintro ⟨_, _, _, last, hlast, _⟩
  cases hlast

end Execution

end RailYard.Properties
