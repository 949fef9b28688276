import RailYard.Oracle.Snapshot

/-! The passes of the oracle over a snapshot. Maps are tables that keep the last
row of a key, and a map is ranged over in the order of its keys' first rows; the
source's order is arbitrary. -/
namespace RailYard.Oracle
open Library Domain

def terminalState (state : String) : Bool :=
  state = "SUCCEEDED" || state = "FAILED" || state = "DEAD_LETTER"

def activeAttemptState (state : String) : Bool := state = "LEASED" || state = "RUNNING"

def isLowerHex (character : Char) : Bool :=
  '0' ≤ character && character ≤ '9' || 'a' ≤ character && character ≤ 'f'

def validHex (size : Nat) (value : String) : Bool :=
  value.utf8ByteSize = size && value.toList.all isLowerHex

def validID : String → Bool := validHex 32

def validDigest : String → Bool := validHex 64

def manifestKey (tenant key : String) : String := tenant ++ "\x00" ++ key

def validOptionalJSON (text : Option String) : Bool := (text.map JsonSyntax.valid).getD true

/-- `%d` of what was found and what was wanted. -/
def mismatch (subject : String) (found wanted : Int) : String :=
  subject ++ "=" ++ toString found ++ " want=" ++ toString wanted

abbrev Jobs := Table String JobRow

def analyzeSettings (data : Snapshot) : Audit Unit := do
  data.integrity.forM fun failure => add "sqlite_integrity" "" failure
  data.foreignKeys.forM fun failure => add "foreign_keys" "" failure
  addIf (JsonStruct.foldName data.journalMode ≠ JsonStruct.foldName "wal") "sqlite_settings" ""
    ("journal_mode=" ++ data.journalMode ++ " want=WAL")
  addIf (data.synchronous ≠ 2) "sqlite_settings" ""
    (mismatch "synchronous" data.synchronous 2 ++ " (FULL)")
  addIf (data.foreignKeysOn ≠ 1) "sqlite_settings" "" "foreign_keys is not enabled"
  addIf (data.busyTimeout ≠ 5000) "sqlite_settings" ""
    (mismatch "busy_timeout" data.busyTimeout 5000)

abbrev Manifest := Table String AcceptedRecord

def analyzeRecord (maps : Manifest × Manifest) (entry : AcceptedRecord × Nat) :
    Audit (Manifest × Manifest) := do
  let record := entry.1
  let key := manifestKey record.tenantID record.submissionKey
  addIf (record.sequence ≠ entry.2 + 1) "manifest" record.jobID
    (mismatch "sequence" record.sequence (entry.2 + 1))
  addIf (validID record.jobID = false) "manifest" record.jobID
    "job ID is not 32 lowercase hexadecimal characters"
  addIf (record.tenantID = "") "manifest" record.jobID "tenant ID is empty"
  addIf (record.submissionKey = "") "manifest" record.jobID "submission key is empty"
  addIf (record.acceptedAt = zeroTime) "manifest" record.jobID "accepted timestamp is zero"
  addIf (maps.1.get? record.jobID).isSome "manifest" record.jobID "duplicate accepted job ID"
  addIf (maps.2.get? key).isSome "manifest" record.jobID "duplicate tenant and submission key"
  return (maps.1.put record.jobID record, maps.2.put key record)

def analyzeManifest (accepted : List AcceptedRecord) (expected : Int) :
    Audit (Manifest × Manifest) := do
  addIf ((accepted.length : Int) ≠ expected) "manifest" ""
    (mismatch "accepted records" accepted.length expected)
  accepted.zipIdx.foldlM analyzeRecord (.empty, .empty)

structure PayloadBody where
  type : String := ""
  durationMS : Int := 0
  args : List String := []

def fitsInt64 (value : Int) : Bool := int64 value = value

def payloadMembers : List (JsonSyntax.Member PayloadBody) :=
  [JsonSyntax.member "type" JsonSyntax.text PayloadBody.type
      fun body value => { body with type := value },
    JsonSyntax.member "duration_ms" (JsonSyntax.integer fitsInt64) PayloadBody.durationMS
      fun body value => { body with durationMS := value },
    JsonSyntax.member "args" (JsonSyntax.slice "" JsonSyntax.text) PayloadBody.args
      fun body value => { body with args := value }]

structure RetryPolicy where
  maxAttempts : Int := 0
  retryable : Bool := false

def retryMembers : List (JsonSyntax.Member RetryPolicy) :=
  [JsonSyntax.member "max_attempts" (JsonSyntax.integer fitsInt64) RetryPolicy.maxAttempts
      fun retry value => { retry with maxAttempts := value },
    JsonSyntax.member "retryable" JsonSyntax.flag RetryPolicy.retryable
      fun retry value => { retry with retryable := value }]

def analyzeJobRow (job : JobRow) : Audit Unit := do
  addIf (validID job.id = false) "materialized_jobs" job.id "job ID is malformed"
  addIf (job.executionKey = "") "materialized_jobs" job.id "execution key is empty"
  addIf (job.stateVersion < 1 ∨ job.attemptNo < 0 ∨ job.leaseGeneration < 0) "materialized_jobs"
    job.id "negative counter or nonpositive state version"
  addIf (job.createdAt ≤ 0 ∨ job.updatedAt < job.createdAt) "materialized_jobs" job.id
    "job timestamps are not ordered"
  if terminalState job.state then
    addIf (job.terminalAt.all (fun terminalAt =>
        terminalAt < job.createdAt || terminalAt > job.updatedAt) = true)
      "materialized_jobs" job.id "terminal timestamp is missing or unordered"
  else
    addIf job.terminalAt.isSome "materialized_jobs" job.id
      "nonterminal job has terminal timestamp"
  addIf (job.state ≠ "PENDING" ∧ job.readySeq ≠ 0) "materialized_jobs" job.id
    "non-pending job has a ready sequence"
  addIf (job.slotCost < 1) "materialized_jobs" job.id "slot cost is not positive"
  match JsonSyntax.unmarshal payloadMembers {} job.payloadJSON with
  | none => add "materialized_jobs" job.id "payload JSON is invalid"
  | some body =>
    addIf (body.type ≠ "noop" ∧ body.type ≠ "shell") "materialized_jobs" job.id
      "payload type is invalid"
  match JsonSyntax.unmarshal retryMembers {} job.retryJSON with
  | none => add "materialized_jobs" job.id "retry JSON is invalid"
  | some retry =>
    addIf (retry.maxAttempts < 1) "materialized_jobs" job.id "retry maximum is not positive"
  addIf (validOptionalJSON job.failureJSON = false) "materialized_jobs" job.id
    "failure JSON is invalid"

def analyzeJob (accepted : Manifest) (jobs : Jobs) (job : JobRow) : Audit Jobs := do
  addIf (jobs.get? job.id).isSome "materialized_jobs" job.id "duplicate jobs row"
  addIf (accepted.get? job.id).isNone "canonical_ledger" job.id
    "database job is absent from accepted manifest"
  analyzeJobRow job
  return jobs.put job.id job

def analyzeJobs (rows : List JobRow) (accepted : Manifest) : Audit Jobs := do
  let jobs ← rows.foldlM (analyzeJob accepted) .empty
  accepted.keys.forM fun jobID =>
    addIf (jobs.get? jobID).isNone "canonical_ledger" jobID "accepted job has no jobs row"
  return jobs

abbrev Completions := Table String CompletionRow

def analyzeOutcome (completion : CompletionRow) (job : JobRow) : Audit Unit := do
  addIf (completion.state ≠ job.state ∨ completion.stateVersion ≠ job.stateVersion ∨
      completion.attemptNo ≠ job.attemptNo) "canonical_ledger" completion.jobID
    "completion disagrees with materialized job"
  addIf (completion.committedAt ≤ 0 ∨
      job.terminalAt.any (fun terminalAt => completion.committedAt ≠ terminalAt) = true)
    "canonical_ledger" completion.jobID "completion commit timestamp is inconsistent"
  addIf (completion.state ≠ "SUCCEEDED") "canonical_ledger" completion.jobID
    ("canonical outcome is " ++ completion.state)
  addIf (completion.attemptNo > 0 ∧ validDigest completion.outputDigest = false)
    "canonical_ledger" completion.jobID "attempt completion output digest is invalid"
  addIf (validOptionalJSON completion.failureJSON = false) "canonical_ledger" completion.jobID
    "completion failure JSON is invalid"

def analyzeMaterialized (jobs : Jobs) (completion : CompletionRow) : Audit Unit :=
  match jobs.get? completion.jobID with
  | none => add "canonical_ledger" completion.jobID "completion has no jobs row"
  | some job => analyzeOutcome completion job

def analyzeCompletion (accepted : Manifest) (jobs : Jobs) (completions : Completions)
    (completion : CompletionRow) : Audit Completions := do
  addIf (completions.get? completion.jobID).isSome "canonical_ledger" completion.jobID
    "duplicate canonical completion"
  addIf (accepted.get? completion.jobID).isNone "canonical_ledger" completion.jobID
    "orphan canonical completion"
  analyzeMaterialized jobs completion
  return completions.put completion.jobID completion

def analyzeCompletions (rows : List CompletionRow) (accepted : Manifest) (jobs : Jobs) :
    Audit Completions := do
  let completions ← rows.foldlM (analyzeCompletion accepted jobs) .empty
  accepted.keys.forM fun jobID =>
    addIf (completions.get? jobID).isNone "canonical_ledger" jobID
      "accepted job has no canonical completion"
  jobs.rows.forM fun entry =>
    addIf (terminalState entry.2.state ≠ (completions.get? entry.1).isSome) "canonical_ledger"
      entry.1 "terminal materialization and completion presence disagree"
  return completions

def responseMembers : List (JsonSyntax.Member String) :=
  [JsonSyntax.member "id" JsonSyntax.text id fun _ value => value]

def analyzeIdempotencyRow (byKey byID : Manifest) (seen : List String) (row : IdempotencyRow) :
    Audit (List String) := do
  let key := manifestKey row.tenantID row.submissionKey
  let jobID := row.jobID.getD ""
  addIf (key ∈ seen) "idempotency" jobID "duplicate idempotency row"
  match byKey.get? key with
  | none => add "idempotency" jobID "idempotency row is absent from manifest"
  | some record =>
    addIf (row.jobID ≠ some record.jobID) "idempotency" record.jobID
      "idempotency row points to another job"
  addIf (row.requestKind ≠ "job" ∨ row.requestDigest = "" ∨ row.createdAt ≤ 0) "idempotency" jobID
    "idempotency row metadata is invalid"
  match JsonSyntax.unmarshal responseMembers "" row.responseJSON with
  | none => add "idempotency" jobID "stable response JSON is invalid"
  | some responseID =>
    addIf (row.jobID ≠ some responseID) "idempotency" jobID
      "stable response job ID is inconsistent"
  match row.jobID with
  | none => pure ()
  | some named =>
    addIf (byID.get? named).isNone "idempotency" named "idempotency job is absent from manifest"
  return key :: seen

def analyzeIdempotency (rows : List IdempotencyRow) (byKey byID : Manifest) : Audit Unit := do
  let seen ← rows.foldlM (analyzeIdempotencyRow byKey byID) []
  byKey.rows.forM fun entry =>
    addIf (entry.1 ∉ seen) "idempotency" entry.2.jobID "accepted submission has no idempotency row"

def receiptFields (attempt : AttemptRow) : Nat :=
  (if attempt.completionRequestDigest.isSome then 1 else 0) +
    (if attempt.receiptState.isSome then 1 else 0) +
    (if attempt.receiptStateVersion.isSome then 1 else 0) +
    (if attempt.receiptCommittedAt.isSome then 1 else 0)

def analyzeClosing (attempt : AttemptRow) : Audit Unit :=
  if activeAttemptState attempt.state then
    addIf attempt.completedAt.isSome "attempts_and_leases" attempt.jobID
      "active attempt has completion timestamp"
  else
    addIf (attempt.completedAt.all (· < attempt.leasedAt) = true) "attempts_and_leases"
      attempt.jobID "closed attempt has invalid completion timestamp"

def analyzeReceipt (attempt : AttemptRow) : Audit Unit := do
  addIf (attempt.completionRequestDigest.any (fun digest => !validDigest digest) = true)
    "attempts_and_leases" attempt.jobID "completion request digest is invalid"
  addIf (receiptFields attempt ≠ 0 ∧ receiptFields attempt ≠ 4) "attempts_and_leases"
    attempt.jobID "completion receipt fields are partially populated"
  addIf (attempt.state = "EXPIRED" ∧ receiptFields attempt ≠ 0) "attempts_and_leases"
    attempt.jobID "expired attempt has a completion receipt"

def analyzeAttemptRow (jobs : Jobs) (attempt : AttemptRow) : Audit Unit := do
  addIf (jobs.get? attempt.jobID).isNone "attempts_and_leases" attempt.jobID
    "attempt has no jobs row"
  addIf (attempt.workerID = "" ∨ validDigest attempt.tokenHash = false) "attempts_and_leases"
    attempt.jobID "attempt worker or token hash is invalid"
  addIf (attempt.attemptNo < 1 ∨ attempt.leaseGeneration < 1) "attempts_and_leases" attempt.jobID
    "attempt number or generation is not positive"
  addIf (attempt.leasedAt ≤ 0 ∨ attempt.heartbeatAt < attempt.leasedAt ∨
      attempt.expiresAt < attempt.heartbeatAt) "attempts_and_leases" attempt.jobID
    "lease timestamps are not ordered"
  addIf (attempt.startedAt.any (· < attempt.leasedAt) = true) "attempts_and_leases" attempt.jobID
    "attempt started before it was leased"
  analyzeClosing attempt
  analyzeReceipt attempt
  addIf (validOptionalJSON attempt.failureJSON = false) "attempts_and_leases" attempt.jobID
    "attempt failure JSON is invalid"

def attemptMatchesCompletion (attemptState completionState : String) : Bool :=
  if completionState = "SUCCEEDED" then attemptState = "SUCCEEDED"
  else if completionState = "FAILED" then attemptState = "FAILED"
  else if completionState = "DEAD_LETTER" then
    attemptState = "FAILED" || attemptState = "EXPIRED"
  else false

def analyzeLastAttempt (completions : Completions) (jobID : String) (active : Nat) (job : JobRow)
    (last : AttemptRow) : Audit Unit := do
  addIf (job.attemptNo ≠ last.attemptNo ∨ job.leaseGeneration ≠ last.leaseGeneration)
    "attempts_and_leases" jobID "job fence does not match latest attempt"
  addIf (active > 0 ∧ job.state ≠ "SCHEDULED" ∧ job.state ≠ "RUNNING") "attempts_and_leases" jobID
    "active attempt belongs to an inactive job"
  match completions.get? jobID with
  | none => pure ()
  | some completion =>
    addIf (completion.attemptNo > 0 ∧ (last.attemptNo ≠ completion.attemptNo ∨
        attemptMatchesCompletion last.state completion.state = false ∨
        last.receiptCommittedAt ≠ some completion.committedAt)) "attempts_and_leases" jobID
      "final attempt disagrees with canonical completion"

def analyzeFences (jobID : String) (attempts : List AttemptRow) : Audit Unit :=
  attempts.zipIdx.forM fun entry => do
    addIf (entry.1.attemptNo ≠ entry.2 + 1) "attempts_and_leases" jobID
      (mismatch "attempt number" entry.1.attemptNo (entry.2 + 1))
    match entry.2 with
    | 0 => pure ()
    | previous + 1 =>
      addIf ((attempts[previous]?).any (fun before =>
          entry.1.leaseGeneration ≤ before.leaseGeneration) = true) "attempts_and_leases" jobID
        "lease generations are not strictly increasing"

def activeAttempts (attempts : List AttemptRow) : Nat :=
  (attempts.filter fun attempt => activeAttemptState attempt.state).length

def analyzeJobAttempts (jobs : Jobs) (completions : Completions) (jobID : String)
    (attempts : List AttemptRow) : Audit Unit := do
  analyzeFences jobID attempts
  addIf (activeAttempts attempts > 1) "attempts_and_leases" jobID
    "more than one active attempt exists"
  match jobs.get? jobID, attempts.getLast? with
  | some job, some last => analyzeLastAttempt completions jobID (activeAttempts attempts) job last
  | _, _ => pure ()

def attemptsOf (rows : List AttemptRow) (jobID : String) : List AttemptRow :=
  rows.filter fun attempt => attempt.jobID = jobID

def analyzeAttempts (rows : List AttemptRow) (jobs : Jobs) (completions : Completions) :
    Audit (Nat × Nat) := do
  rows.forM (analyzeAttemptRow jobs)
  let owners := (rows.map AttemptRow.jobID).dedup
  owners.forM fun jobID => analyzeJobAttempts jobs completions jobID (attemptsOf rows jobID)
  jobs.rows.forM fun entry =>
    addIf (attemptsOf rows entry.1 = [] ∧ (entry.2.attemptNo ≠ 0 ∨ entry.2.leaseGeneration ≠ 0))
      "attempts_and_leases" entry.1 "job fence is nonzero without attempts"
  addIf (activeAttempts rows ≠ 0) "attempts_and_leases" ""
    (toString (activeAttempts rows) ++ " active attempts remain after drain")
  return ((owners.map fun jobID => (attemptsOf rows jobID).length - 1).sum, activeAttempts rows)

def allowedTransition (source target eventType : String) : Bool :=
  if terminalState source then false
  else if source = target then
    source = "PENDING" && (eventType = "dependency_released" || eventType = "job_promoted")
  else if source = "PENDING" then
    target = "SCHEDULED" || target = "FAILED" || target = "DEAD_LETTER"
  else if source = "SCHEDULED" ∨ source = "RUNNING" then
    target = "RUNNING" || target = "PENDING" || target = "RETRYING" || target = "SUCCEEDED" ||
      target = "FAILED" || target = "DEAD_LETTER"
  else if source = "RETRYING" then
    target = "PENDING" || target = "SCHEDULED" || target = "DEAD_LETTER"
  else false

/-- One event of a job, with its place in the job's log and the state before it. -/
def analyzeEvent (jobID : String) (events : List EventRow) (entry : EventRow × Nat) :
    Audit Unit := do
  let event := entry.1
  addIf (event.stateVersion ≠ entry.2 + 1) "event_log" jobID
    (mismatch "event state version" event.stateVersion (entry.2 + 1))
  match entry.2 with
  | 0 => addIf (event.type ≠ "job_admitted") "event_log" jobID "first event is not job_admitted"
  | previous + 1 =>
    let previousState := ((events[previous]?).map EventRow.state).getD ""
    addIf (allowedTransition previousState event.state event.type = false) "event_log" jobID
      ("invalid transition " ++ previousState ++ " to " ++ event.state ++ " for " ++ event.type)

def analyzeJobEvents (jobID : String) (job : JobRow) (events : List EventRow) : Audit Unit := do
  events.zipIdx.forM (analyzeEvent jobID events)
  let admissions := (events.filter fun event => event.type = "job_admitted").length
  addIf (admissions ≠ 1) "event_log" jobID (mismatch "admission events" admissions 1)
  match events.getLast? with
  | none => pure ()
  | some last =>
    addIf (last.state ≠ job.state ∨ last.stateVersion ≠ job.stateVersion) "event_log" jobID
      "event fold disagrees with materialized job"

def eventsOf (rows : List EventRow) (jobID : String) : List EventRow :=
  rows.filter fun event => event.jobID = jobID

def analyzeEvents (rows : List EventRow) (jobs : Jobs) : Audit Unit := do
  rows.zipIdx.forM fun entry => do
    addIf (entry.1.sequence ≠ entry.2 + 1) "event_log" entry.1.jobID
      (mismatch "global event sequence" entry.1.sequence (entry.2 + 1))
    addIf (entry.1.occurredAt ≤ 0 ∨ JsonSyntax.valid entry.1.payloadJSON = false) "event_log"
      entry.1.jobID "event timestamp or payload JSON is invalid"
  (rows.map EventRow.jobID).dedup.forM fun jobID =>
    match jobs.get? jobID with
    | none => add "event_log" jobID "event has no jobs row"
    | some job => analyzeJobEvents jobID job (eventsOf rows jobID)
  jobs.keys.forM fun jobID =>
    addIf (eventsOf rows jobID = []) "event_log" jobID "job has no events"

def attachedEdges (edges : List DependencyRow) (jobs : Jobs) : List DependencyRow :=
  edges.filter fun edge => (jobs.get? edge.jobID).isSome && (jobs.get? edge.dependsOn).isSome

def childrenOf (edges : List DependencyRow) (jobID : String) : List String :=
  (edges.filter fun edge => edge.dependsOn = jobID).map DependencyRow.jobID

def parentsOf (edges : List DependencyRow) (jobID : String) : List String :=
  (edges.filter fun edge => edge.jobID = jobID).map DependencyRow.dependsOn

def releaseChildren : (String → Int) → List String → List String → (String → Int) × List String
  | indegree, stack, [] => (indegree, stack)
  | indegree, stack, child :: rest =>
    let degree := indegree child - 1
    releaseChildren (fun jobID => if jobID = child then degree else indegree jobID)
      (if degree = 0 then child :: stack else stack) rest

def visitAll (edges : List DependencyRow) : Nat → (String → Int) → List String → Nat → Nat
  | 0, _, _, visited => visited
  | _ + 1, _, [], visited => visited
  | fuel + 1, indegree, jobID :: stack, visited =>
    let released := releaseChildren indegree stack (childrenOf edges jobID)
    visitAll edges fuel released.1 released.2 (visited + 1)

def visitedJobs (edges : List DependencyRow) (jobs : Jobs) : Nat :=
  let indegree := fun jobID => ((parentsOf edges jobID).length : Int)
  visitAll edges jobs.keys.length indegree (jobs.keys.filter fun jobID => indegree jobID = 0) 0

/-- The jobs below a root, in the order of a search with a stack; an edge is
followed at most once. -/
def searchBelow (edges : List DependencyRow) : Nat → List String → List String → List String
  | 0, _, _ => []
  | _ + 1, _, [] => []
  | fuel + 1, seen, jobID :: stack =>
    if jobID ∈ seen then searchBelow edges fuel seen stack
    else jobID :: searchBelow edges fuel (jobID :: seen)
      ((childrenOf edges jobID).reverse ++ stack)

def descendantsOf (edges : List DependencyRow) (root : String) : List String :=
  searchBelow edges (edges.length + 1) [root] (childrenOf edges root).reverse

def isReleased (job : JobRow) : Bool :=
  job.readySeq > 0 || job.state = "SCHEDULED" || job.state = "RUNNING" || job.state = "SUCCEEDED"

def stateOf (jobs : Jobs) (jobID : String) : String := ((jobs.get? jobID).map JobRow.state).getD ""

def analyzeDAG (edges : List DependencyRow) (jobs : Jobs) (events : List EventRow) :
    Audit Unit := do
  edges.forM fun edge =>
    match jobs.get? edge.jobID, jobs.get? edge.dependsOn with
    | some child, some parent =>
      addIf (child.tenantID ≠ parent.tenantID) "dag" edge.jobID "dependency crosses tenants"
    | _, _ => add "dag" edge.jobID "dependency endpoint is missing"
  let attached := attachedEdges edges jobs
  addIf (visitedJobs attached jobs ≠ jobs.keys.length) "dag" "" "dependency graph contains a cycle"
  jobs.rows.forM fun entry =>
    if isReleased entry.2 then
      (parentsOf attached entry.1).forM fun parentID =>
        addIf (stateOf jobs parentID ≠ "SUCCEEDED") "dag" entry.1
          "released job has an unsuccessful parent"
    else pure ()
  let releases := (events.filter fun event => event.type = "dependency_released").map EventRow.jobID
  releases.dedup.forM fun jobID =>
    addIf (releases.count jobID > 1) "dag" jobID
      ("dependency release events=" ++ toString (releases.count jobID) ++ " want at most 1")
  jobs.rows.forM fun entry =>
    if entry.2.state = "FAILED" ∨ entry.2.state = "DEAD_LETTER" then
      (descendantsOf attached entry.1).forM fun childID =>
        addIf (terminalState (stateOf jobs childID) = false) "dag" childID
          "descendant of unsuccessful job is nonterminal"
    else pure ()

def holdsSlots (job : JobRow) : Bool := job.state = "SCHEDULED" || job.state = "RUNNING"

def slotsHeld (jobs : Jobs) (owner : JobRow → Bool) : Int :=
  int64 (((jobs.rows.filter fun entry => holdsSlots entry.2 && owner entry.2).map fun entry =>
    entry.2.slotCost).sum)

def tenantDepth (jobs : Jobs) (tenantID : String) : Nat :=
  (jobs.rows.filter fun entry =>
    !terminalState entry.2.state && entry.2.tenantID = tenantID).length

def queueKey (job : JobRow) : String := manifestKey job.tenantID job.queue

def analyzeSlots (tenants : List TenantRow) (queues : List QueueRow) (jobs : Jobs) :
    Audit Int := do
  let tenantSlots := fun tenantID => slotsHeld jobs fun job => job.tenantID = tenantID
  let queueSlots := fun key => slotsHeld jobs fun job => queueKey job = key
  tenants.forM fun tenant => do
    addIf (tenant.activeSlots ≠ tenantSlots tenant.tenantID) "slot_accounting" ""
      ("tenant " ++ tenant.tenantID ++ " " ++
        mismatch "active_slots" tenant.activeSlots (tenantSlots tenant.tenantID))
    addIf (tenant.maxSlots > 0 ∧ tenant.activeSlots > tenant.maxSlots) "slot_accounting" ""
      ("tenant slot cap exceeded for " ++ tenant.tenantID)
    addIf (tenant.maxDepth > 0 ∧ (tenantDepth jobs tenant.tenantID : Int) > tenant.maxDepth)
      "slot_accounting" "" ("tenant depth cap exceeded for " ++ tenant.tenantID)
  let waiting := (jobs.rows.filter fun entry => !terminalState entry.2.state).map fun entry =>
    entry.2.tenantID
  waiting.dedup.forM fun tenantID =>
    addIf (tenantID ∉ tenants.map TenantRow.tenantID) "slot_accounting" ""
      ("tenant limits missing for " ++ tenantID)
  queues.forM fun queue => do
    let key := manifestKey queue.tenantID queue.queue
    addIf (queue.weight < 1) "slot_accounting" "" ("queue weight is not positive for " ++ key)
    addIf (queue.activeSlots ≠ queueSlots key) "slot_accounting" ""
      ("queue " ++ key ++ " " ++ mismatch "active_slots" queue.activeSlots (queueSlots key))
  let busy := (jobs.rows.filter fun entry => holdsSlots entry.2).map fun entry => queueKey entry.2
  busy.dedup.forM fun key =>
    addIf (key ∉ queues.map fun queue => manifestKey queue.tenantID queue.queue)
      "slot_accounting" "" ("queue state missing for " ++ key)
  let total := slotsHeld jobs fun _ => true
  addIf (total ≠ 0) "slot_accounting" ""
    (toString total ++ " slot reservations remain after drain")
  return total

def analyzeReadySeqs (jobs : Jobs) : Audit (Table Int String) :=
  jobs.rows.foldlM (fun seen entry =>
    if entry.2.readySeq > 0 then do
      match seen.get? entry.2.readySeq with
      | none => pure ()
      | some other =>
        add "materialized_jobs" entry.2.id ("ready sequence is shared with " ++ other)
      return seen.put entry.2.readySeq entry.2.id
    else return seen) .empty

def analyzeCounters (counters : List CounterRow) (jobs : Jobs) : Audit Unit := do
  let values ← counters.foldlM (fun values counter => do
    addIf (Table.get? values counter.name).isSome "materialized_jobs" ""
      ("duplicate counter " ++ counter.name)
    return values.put counter.name counter.value) (.empty : Table String Int)
  match values.get? "ready_seq" with
  | none => add "materialized_jobs" "" "ready sequence counter is missing"
  | some readyCounter =>
    let _ ← analyzeReadySeqs jobs
    let maximum := (jobs.rows.map fun entry => entry.2.readySeq).foldl max 0
    addIf (readyCounter < maximum) "materialized_jobs" ""
      "ready sequence counter trails materialized jobs"

def analyzeMigrations (rows : List MigrationRow) : Audit Unit :=
  match rows with
  | [] => add "schema_migrations" "" "no schema migrations are recorded"
  | _ => rows.zipIdx.forM fun entry => do
    addIf (entry.1.version ≠ entry.2 + 1) "schema_migrations" ""
      (mismatch "migration version" entry.1.version (entry.2 + 1))
    addIf (entry.1.name = "" ∨ validDigest entry.1.checksum = false ∨ entry.1.appliedAt ≤ 0)
      "schema_migrations" "" ("migration " ++ toString entry.1.version ++ " metadata is invalid")

def stateCounts (jobs : List JobRow) : List (String × Nat) :=
  (jobs.map JobRow.state).dedup.map fun state =>
    (state, (jobs.filter fun job => job.state = state).length)

def analyzeAll (data : Snapshot) (accepted : List AcceptedRecord) (expected : Int) :
    Audit Counts := do
  analyzeSettings data
  let manifest ← analyzeManifest accepted expected
  let jobs ← analyzeJobs data.jobs manifest.1
  let completions ← analyzeCompletions data.completions manifest.1 jobs
  analyzeIdempotency data.idempotency manifest.2 manifest.1
  let attempts ← analyzeAttempts data.attempts jobs completions
  analyzeEvents data.events jobs
  analyzeDAG data.dependencies jobs data.events
  let slotReservations ← analyzeSlots data.tenants data.queues jobs
  analyzeCounters data.counters jobs
  analyzeMigrations data.migrations
  return {
    accepted := manifest.1.keys.length
    jobs := data.jobs.length
    completions := data.completions.length
    attempts := data.attempts.length
    attemptRepeats := attempts.1
    events := data.events.length
    idempotencyRows := data.idempotency.length
    activeJobs := (data.jobs.filter fun job => !terminalState job.state).length
    activeAttempts := attempts.2
    slotReservations := slotReservations
    stateCounts := stateCounts data.jobs }

def analyze (data : Snapshot) (accepted : List AcceptedRecord) (options : Options) : Report :=
  let audit := analyzeAll data accepted options.expectedJobs
  reportOf options audit.value audit.found

end RailYard.Oracle
