import RailYard.Properties.Leases
import RailYard.Refinement.Availability

/-! Requested start times. The instant is compared as a time at admission and as
a 64-bit number of nanoseconds ever after; the two agree for the instants that
64 bits hold. -/
namespace RailYard.Properties
open Library Library.Transaction Domain Store
open Lifecycle Refinement

/-- The call admits the job `id` with this start time. -/
inductive Submits (env : Env) (store : StoreState) (reading : Reading) :
    Op → String → Time → Prop
  | job {submission : Submission} {entropy : Entropy} {job : Job}
      (answer : (step env store ⟨.submitJob submission entropy, reading⟩).1 =
        .ok (.job job false)) :
      Submits env store reading (.submitJob submission entropy) job.id submission.job.availableAt
  | workflow {submission : WorkflowSubmission} {entropy : Nat → Entropy} {jobs : List Job}
      {index : Nat} {node : WorkflowNode} {job : Job}
      (answer : (step env store ⟨.submitWorkflow submission entropy, reading⟩).1 =
        .ok (.jobs jobs false))
      (node_eq : submission.nodes[index]? = some node) (job_eq : jobs[index]? = some job) :
      Submits env store reading (.submitWorkflow submission entropy) job.id node.job.availableAt

def ReleasedByOperator (db : Database) (id : String) : Prop :=
  ∃ event ∈ db.events, event.jobID = id ∧ event.eventType = .operator ForceAction.release.text

def TenantHasRoom (db : Database) (row : JobRow) : Prop :=
  ∃ limits, db.tenantLimits.get? row.tenantID = some limits ∧
    (limits.maxSlots = 0 ∨ limits.activeSlots + row.slotCost ≤ limits.maxSlots)

/-- The job waits in its queue, and a plan selects it if there is room for it. -/
def Selectable (db : Database) (now : Time) (id : String) : Prop :=
  ∃ row, db.jobs.get? id = some row ∧ row.state = .pending ∧ 0 < row.readySeq ∧
    row.availableAt ≤ timeToDB now ∧ (isReady db now (id, row) = true ↔ TenantHasRoom db row)

/-- From here on the job gets its first lease at `time` or later, and from
`time` on nothing but its parents and the next promotion holds it back. -/
structure Honoured (env : Env) (store : StoreState) (id : String) (time : Time) : Prop where
  never_early : ∀ request tokens reading,
    ∀ lease ∈ leasesGranted env store ⟨.acquire request tokens, reading⟩,
      lease.jobID = id → lease.attemptNo = 1 → time ≤ store.clock.writeTime reading
  selectable : ∀ reading row, store.db.jobs.get? id = some row → row.attemptNo = 0 →
    row.state.terminal = false → time ≤ store.clock.writeTime reading →
    parentsSucceeded store.db id = true →
    (0 < row.readySeq → Selectable store.db (store.clock.writeTime reading) id) ∧
      ∀ limit, (store.db.jobs.rows.length : Int) ≤ limit →
        Selectable (step env store ⟨.promoteDue limit, reading⟩).2.db
          (store.clock.writeTime reading) id

variable {env : Env} {store : StoreState} {reading : Reading} {id : String} {time : Time}

theorem punctual_of_submits (h : Submits env store reading op id requested) :
    Punctual id (timeToDB (startTime requested (store.clock.writeTime reading)))
      (yardOf (step env store ⟨op, reading⟩).2.db) := by
  cases h with
  | @job submission entropy job answer =>
    obtain ⟨⟨created, _⟩, between, hsubmit, hpure⟩ :=
      bind_ok (program_of_step (fun _ => Op.noConfusion) rfl rfl answer)
    obtain ⟨heq, hlast⟩ := pure_ok hpure
    cases heq
    obtain ⟨htime, hfresh, hrows⟩ := submitJob_row hsubmit
    rw [← hlast, ← htime]
    have hrow := Table.get?_insert_self store.db.jobs (Job.toRow created) hfresh
    rw [← hrows] at hrow
    exact .inr ⟨_, hrow, fun _ _ => rfl⟩
  | @workflow submission entropy jobs index node job answer hnode hjob =>
    obtain ⟨⟨_, _⟩, between, hsubmit, hpure⟩ :=
      bind_ok (program_of_step (fun _ => Op.noConfusion) rfl rfl answer)
    obtain ⟨heq, hlast⟩ := pure_ok hpure
    cases heq
    obtain ⟨htimes, hrows⟩ := submitWorkflow_rows hsubmit
    have htime := congrArg (fun times : List Time => times[index]?) htimes
    simp only [List.getElem?_map, hnode, hjob, Option.map_some, Option.some.injEq] at htime
    rw [← hlast, ← htime]
    exact .inr ⟨_, hrows job (List.mem_of_getElem? hjob), fun _ _ => rfl⟩

theorem selectable_of_ready (accounts : Accounts (yardOf db)) (hrow : db.jobs.get? id = some row)
    (hpending : row.state = .pending) (hready : 0 < row.readySeq)
    (havailable : row.availableAt ≤ timeToDB now) : Selectable db now id := by
  refine ⟨row, hrow, hpending, hready, havailable, ?_⟩
  have hqueue : (db.queueState.get? (queueKey (id, row))).isSome = true := by
    have hsome := accounts.queueExists id row hrow
    change ((db.queueState.get? (row.tenantID, row.queueName)).map _).isSome = true at hsome
    rwa [Option.isSome_map] at hsome
  rw [isReady_iff]
  exact ⟨fun hall => hall.2.2.2.1, fun hroom => ⟨hpending, hready, havailable, hroom, hqueue⟩⟩

theorem honoured_of_punctual (sound : Sound (yardOf store.db))
    (representable : int64 time = time) (h : Punctual id (timeToDB time) (yardOf store.db))
    (unreleased : ¬(yardOf store.db).Released id) : Honoured env store id time := by
  obtain ⟨row, hrow, htime⟩ := h.resolve_left unreleased
  change store.db.jobs.get? id = some row at hrow
  have hstored : timeToDB time = time := representable
  rw [hstored] at htime
  constructor
  case never_early =>
    rintro request tokens reading lease hlease rfl hfirst
    obtain ⟨leases, db', hacquire, hmem⟩ := exists_acquire hlease
    obtain ⟨granted, hleased, _⟩ := acquire_leased hacquire
    have hranked : (lease.jobID, lease.slotCost) ∈
        granted.map fun entry => (entry.1, entry.2.slotCost) := by
      rw [← hleased.leases_eq]
      exact List.mem_map_of_mem hmem
    obtain ⟨entry, hentry, heq⟩ := List.mem_map.mp hranked
    obtain ⟨hmemRow, hisReady⟩ := mem_rankedJobs (hleased.ranked entry hentry)
    have hentryRow := (store.db.jobs.mem_rows_iff entry.1 entry.2).mp hmemRow
    rw [(Prod.mk.inj heq).1, hrow, Option.some.injEq] at hentryRow
    obtain ⟨hpending, _, havailable, _⟩ := isReady_iff.mp hisReady
    rw [← hentryRow] at hpending havailable
    -- The first lease finds a job that has had none.
    have hnone : row.attemptNo = 0 := by
      have hlt := (acquire_any hacquire).attemptNo_lt hmem hrow
      have hnonneg := (sound.fences.generation _ _ hrow).2
      omega
    rw [htime hnone (by rw [hpending]; rfl)] at havailable
    exact havailable.trans (le_of_eq (store.clock.writeTime_fits reading))
  case selectable =>
    intro reading found hfound hnone hlive hdue hparents
    rw [hrow, Option.some.injEq] at hfound
    subst hfound
    have hfits : timeToDB (store.clock.writeTime reading) = store.clock.writeTime reading :=
      store.clock.writeTime_fits reading
    have havailable : row.availableAt ≤ timeToDB (store.clock.writeTime reading) := by
      rw [htime hnone hlive, hfits]
      exact hdue
    have hpending : 0 < row.readySeq → row.state = .pending :=
      (sound.fences.ready id row hrow).2.2
    refine ⟨fun hready => selectable_of_ready sound.accounts hrow (hpending hready) hready havailable,
      fun limit hlimit => ?_⟩
    have hlimit1 : 1 ≤ limit := by
      have hmem := (store.db.jobs.mem_rows_iff id row).mpr hrow
      have hpositive := List.length_pos_of_mem hmem
      omega
    obtain ⟨db', hrun, hpromoted, hothers⟩ :=
      promoteDue_run sound.fences (store.clock.writeTime reading) limit
    have hstep : (step env store ⟨.promoteDue limit, reading⟩).2.db = db' := by
      rw [step_promoteDue hlimit1, commit_ok_iff.mpr hrun]
    have hsound : Sound (yardOf db') := by
      rw [← hstep]
      exact sound.steps (call_ok (fun hgrants => by cases hgrants) sound (keepsTo_any _ (.call _)))
    rw [hstep]
    by_cases hready : 0 < row.readySeq
    · have hsame : db'.jobs.get? id = some row := by
        rw [hothers id ?_, hrow]
        intro hmem
        obtain ⟨job, hjob, rfl⟩ := List.mem_map.mp hmem
        obtain ⟨hfound, hdue⟩ := due_of_mem hjob
        rw [hrow, Option.some.injEq] at hfound
        have hzero := (isDue_iff.mp hdue).2.1
        rw [← hfound] at hzero
        omega
      exact selectable_of_ready hsound.accounts hsame (hpending hready) hready havailable
    · have hidle := JobState.idle_iff.mp ⟨hlive, sound.fences.unleased hrow hnone⟩
      have hnonneg := (sound.fences.ready id row hrow).1
      have hdue : isDue store.db (store.clock.writeTime reading) (id, row) = true :=
        isDue_iff.mpr ⟨hidle, by dsimp only; omega, havailable, parentsSucceeded_iff.mp hparents⟩
      obtain ⟨next, hnext, hnextPending, hnextReady, hnextTime⟩ :=
        hpromoted (id, row) (mem_dueJobs hrow hdue hlimit)
      exact selectable_of_ready hsound.accounts hnext hnextPending hnextReady
        (hnextTime.le.trans havailable)

theorem released_iff (db : Database) (id : String) :
    (yardOf db).Released id ↔ ReleasedByOperator db id := by
  constructor
  · rintro ⟨entry, hentry, hreleased⟩
    obtain ⟨event, hevent, rfl⟩ := List.mem_map.mp hentry
    exact ⟨event, hevent, hreleased⟩
  · rintro ⟨event, hevent, hreleased⟩
    exact ⟨_, List.mem_map_of_mem hevent, hreleased⟩

/-- A start time that 64 bits hold, or none at all, is honoured. -/
theorem start_time_honoured (env : Env) (options : Options) (before after : List Activity)
    (op : Op) (reading : Reading) (id : String) (requested : Time)
    (submits : Submits env (run env (freshStore options) before) reading op id requested)
    (representable : requested = zeroTime ∨ int64 requested = requested)
    (unreleased : ¬ReleasedByOperator
      (run env (freshStore options) (before ++ .call ⟨op, reading⟩ :: after)).db id) :
    Honoured env (run env (freshStore options) (before ++ .call ⟨op, reading⟩ :: after)) id
      (startTime requested ((run env (freshStore options) before).clock.writeTime reading)) := by
  have hfits : int64 (startTime requested
      ((run env (freshStore options) before).clock.writeTime reading)) = startTime requested
        ((run env (freshStore options) before).clock.writeTime reading) := by
    unfold startTime
    split
    · exact Clock.writeTime_fits _ _
    · next habsent => exact representable.resolve_left habsent
  have hadmitted := sound_run env options (before ++ [.call ⟨op, reading⟩])
  have hsplit : run env (freshStore options) (before ++ .call ⟨op, reading⟩ :: after) =
      run env (run env (freshStore options) (before ++ [.call ⟨op, reading⟩])) after := by
    rw [← run_append, List.append_assoc, List.singleton_append]
  have hpunctual : Punctual id (timeToDB (startTime requested
      ((run env (freshStore options) before).clock.writeTime reading)))
        (yardOf (run env (freshStore options) (before ++ [.call ⟨op, reading⟩])).db) := by
    rw [run_append]
    exact punctual_of_submits submits
  rw [← released_iff] at unreleased
  refine honoured_of_punctual (sound_run env options _) hfits ?_ unreleased
  rw [hsplit]
  exact punctual_of_steps hpunctual hadmitted.toCoherent (steps_run hadmitted after)

section Example

def jobFrom (start : Time) : Op :=
  .submitJob {
    job := { payload := { type := .noop }, availableAt := start }
    actor := "api"
    idempotencyKey := "key"
    requestDigest := "digest" } (entropyOf 1)

def promoteOne : Activity := .call ⟨.promoteDue 1, ⟨1, 0⟩⟩

def promotedFrom (start : Time) : StoreState :=
  run plainEnv (freshStore defaultOptions) [.call ⟨jobFrom start, ⟨1, 0⟩⟩, promoteOne]

theorem submits_jobFrom {start : Time}
    (h : (match (step plainEnv (freshStore defaultOptions) ⟨jobFrom start, ⟨1, 0⟩⟩).1 with
      | .ok (.job job false) => decide (job.id = newID (entropyOf 1))
      | _ => false) = true) :
    Submits plainEnv (freshStore defaultOptions) ⟨1, 0⟩ (jobFrom start) (newID (entropyOf 1))
      start := by
  split at h
  · next job answer =>
    rw [← of_decide_eq_true h]
    exact .job answer
  · cases h

theorem unreleased_of_all {id : String}
    (h : (db.events.all fun event => event.eventType ≠ .operator "release") = true) :
    ¬ReleasedByOperator db id := by
  rintro ⟨event, hevent, _, heq⟩
  exact of_decide_eq_true (List.all_eq_true.mp h event hevent) heq

/-- The instant 5 in nanoseconds. -/
theorem start_time_honoured_five : Honoured plainEnv (promotedFrom 5) (newID (entropyOf 1)) 5 :=
  start_time_honoured plainEnv defaultOptions [] [promoteOne] (jobFrom 5) ⟨1, 0⟩
    (newID (entropyOf 1)) 5 (submits_jobFrom (by decide +kernel)) (.inr (by decide))
    (unreleased_of_all (by decide +kernel))

def year2300 : Time := 10413792000 * second

def year1600 : Time := -11676096000 * second

example : formatRFC3339Nano year2300 = "2300-01-01T00:00:00Z" := by decide +kernel
example : formatRFC3339Nano year1600 = "1600-01-01T00:00:00Z" := by decide +kernel

def oneLease : AcquireRequest where
  workerID := "worker"
  availableSlots := 1
  limit := 1
  leaseTTL := 10

/-- A job for the year 2300 is leased at once, and one for the year 1600 is not
selected at a time that is long past its start. -/
theorem start_times_missed :
    (Submits plainEnv (freshStore defaultOptions) ⟨1, 0⟩ (jobFrom year2300) (newID (entropyOf 1))
        year2300 ∧
      encodableTime year2300 = true ∧
      ¬ReleasedByOperator (promotedFrom year2300).db (newID (entropyOf 1)) ∧
      ¬Honoured plainEnv (promotedFrom year2300) (newID (entropyOf 1)) year2300) ∧
    (Submits plainEnv (freshStore defaultOptions) ⟨1, 0⟩ (jobFrom year1600) (newID (entropyOf 1))
        year1600 ∧
      encodableTime year1600 = true ∧
      ¬ReleasedByOperator (promotedFrom year1600).db (newID (entropyOf 1)) ∧
      ¬Honoured plainEnv (promotedFrom year1600) (newID (entropyOf 1)) year1600) := by
  refine ⟨⟨submits_jobFrom (by decide +kernel), by decide +kernel,
    unreleased_of_all (by decide +kernel), fun hhonoured => ?_⟩,
    ⟨submits_jobFrom (by decide +kernel), by decide +kernel,
    unreleased_of_all (by decide +kernel), fun hhonoured => ?_⟩⟩
  · have hgranted : ((leasesGranted plainEnv (promotedFrom year2300) ⟨.acquire oneLease
        (fun index => entropyOf index.toUInt8), ⟨1, 0⟩⟩).any fun lease =>
          lease.jobID = newID (entropyOf 1) && lease.attemptNo = 1) = true := by decide +kernel
    obtain ⟨lease, hlease, hfirst⟩ := List.any_eq_true.mp hgranted
    rw [Bool.and_eq_true, decide_eq_true_eq, decide_eq_true_eq] at hfirst
    have hle := hhonoured.never_early _ _ _ lease hlease hfirst.1 hfirst.2
    exact absurd hle (by decide +kernel)
  · have hrow : (((promotedFrom year1600).db.jobs.get? (newID (entropyOf 1))).any fun row =>
        row.attemptNo = 0 && row.state.terminal = false && 0 < row.readySeq &&
          timeToDB ((promotedFrom year1600).clock.writeTime ⟨1, 0⟩) < row.availableAt) = true := by
      decide +kernel
    obtain ⟨row, hrow, hchecks⟩ := (Option.any_eq_true _ _).mp hrow
    simp only [Bool.and_eq_true, decide_eq_true_eq] at hchecks
    obtain ⟨⟨⟨hnone, hlive⟩, hready⟩, hfuture⟩ := hchecks
    obtain ⟨found, hfound, _, _, havailable, _⟩ :=
      (hhonoured.selectable ⟨1, 0⟩ row hrow hnone hlive (by decide +kernel)
        (by decide +kernel)).1 hready
    rw [hrow, Option.some.injEq] at hfound
    rw [← hfound] at havailable
    omega

end Example

end RailYard.Properties
