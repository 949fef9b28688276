import RailYard.Refinement.Acquisition
import RailYard.Refinement.Execution
import RailYard.Refinement.Control

/-! Every call as a sequence of changes of the yard. -/
namespace RailYard.Refinement
open Library Library.Transaction Domain Store
open Lifecycle Relation

def failsJob (sha256 : Hash) (db : Database) (now : Time) (completion : Completion) : Bool :=
  match db.jobs.get? completion.jobID with
  | none => false
  | some job =>
    match completionOutcome sha256 completion job.retry now with
    | .ok outcome => job.state.leased && outcome.1.unsuccessful
    | .error _ => false

def isAlive (db : Database) (id : String) : Bool :=
  match db.jobs.get? id with
  | some job => !job.state.terminal
  | none => false

/-- The jobs that a call may end without success of its own accord, as the
tables stand when it begins. -/
def failedJobs (env : Env) (db : Database) (now : Time) : Op → List String
  | .cancelJob command => [command.jobID].filter (isAlive db)
  | .forceJobAction command action =>
    if action.state.unsuccessful then [command.jobID].filter (isAlive db) else []
  | .complete completion =>
    ([completion].filter (failsJob env.sha256 db now)).map fun completion => completion.jobID
  | .completeBatch completions =>
    (completions.filter (failsJob env.sha256 db now)).map fun completion => completion.jobID
  | .reapExpired limit =>
    (((expiredLeases db now).take limit.toNat).filter fun entry => entry.2.exhausted).map Prod.fst
  | _ => []

/-- The jobs below `root` that hold a lease. -/
def leasedBelow (db : Database) (root : String) : List String :=
  (db.jobs.rows.filter fun entry =>
    entry.2.state.leased && entry.1 ∈ Closure.descendants (dependencyEdges db) root).map Prod.fst

def sparesLeases (env : Env) (db : Database) (now : Time) (op : Op) : Bool :=
  (failedJobs env db now op).all fun id => (leasedBelow db id).isEmpty

def respectsGate (db : Database) : Op → Bool
  | .forceJobAction command action => !action.releases || parentsSucceeded db command.jobID
  | _ => true

def grantsLeases : Op → Bool
  | .acquire .. => true
  | _ => false

def causeOf : Op → Option Cause
  | .acquire .. => some .acquire
  | .markRunning .. | .markRunningBatch .. => some .start
  | .complete .. | .completeBatch .. => some .complete
  | .promoteDue .. => some .promote
  | .reapExpired .. => some .reap
  | .cancelJob command => some (.control command.jobID "cancel" .failed)
  | .forceJobAction command action => some (.control command.jobID action.text action.state)
  | _ => none

def completes : Op → Bool
  | .complete .. | .completeBatch .. => true
  | _ => false

theorem clear_iff : (leasedBelow db root).isEmpty = true ↔ (yardOf db).Clear root := by
  unfold leasedBelow Yard.Clear
  rw [List.isEmpty_iff, List.map_eq_nil_iff, List.filter_eq_nil_iff]
  constructor
  · intro h id row hdescendant hrow
    have hentry := h (id, row) ((db.jobs.mem_rows_iff id row).mpr hrow)
    by_contra hleased
    apply hentry
    simp [mem_descendants_iff.mpr hdescendant, Bool.eq_true_of_not_eq_false hleased]
  · rintro h ⟨id, row⟩ hmem hentry
    rw [Bool.and_eq_true, decide_eq_true_eq, mem_descendants_iff] at hentry
    have hidle := h id row hentry.2 ((db.jobs.mem_rows_iff id row).mp hmem)
    rw [hidle] at hentry
    cases hentry.1

theorem clear_of_spares (h : sparesLeases env db now op = true) {id : String}
    (hid : id ∈ failedJobs env db now op) : (yardOf db).Clear id :=
  clear_iff.mp (List.all_eq_true.mp h id hid)

theorem failsJob_of_outcome (hjob : db.jobs.get? completion.jobID = some job)
    (hleased : job.state.leased = true)
    (houtcome : completionOutcome sha256 completion job.retry now = .ok outcome)
    (hfailed : outcome.1.unsuccessful = true) : failsJob sha256 db now completion = true := by
  unfold failsJob
  rw [hjob]
  dsimp only
  rw [houtcome]
  exact Bool.and_eq_true_iff.mpr ⟨hleased, hfailed⟩

theorem steps_of_kept {α : Type} {program : Tx α} (kept : Preserves yardOf program) {value : α}
    (h : program db = .ok value db') : ReflTransGen (Step policy) (yardOf db) (yardOf db') := by
  rw [kept.ok h]

theorem submitJob_ok (policy : Policy)
    (h : submitJob options submission entropy now db = .ok result db') :
    ReflTransGen (Step policy) (yardOf db) (yardOf db') := by
  obtain ⟨_, _, h⟩ := lift_bind h
  rcases readIdempotency_bind h with ⟨_, _, h⟩ | ⟨_, h⟩
  · obtain ⟨_, rfl⟩ := pure_ok h
    exact .refl
  · obtain ⟨job, _, hadmit, h⟩ := bind_ok h
    obtain ⟨_, _, hrecord⟩ := bind_pure_ok h
    rw [yard_recordIdempotency hrecord]
    exact admitJob_ok policy (JobSpec.normalize_normalize _) hadmit

theorem tenantOrDefault_ne (tenantID : String) : tenantOrDefault tenantID ≠ "" := by
  unfold tenantOrDefault
  split
  · decide
  · assumption

theorem submitWorkflow_ok (policy : Policy)
    (h : submitWorkflow options submission entropy now db = .ok result db') :
    ReflTransGen (Step policy) (yardOf db) (yardOf db') := by
  obtain ⟨_, _, h⟩ := lift_bind h
  rcases readIdempotency_bind h with ⟨_, _, h⟩ | ⟨_, h⟩
  · obtain ⟨_, rfl⟩ := pure_ok h
    exact .refl
  · obtain ⟨jobs, _, hadmit, h⟩ := bind_ok h
    obtain ⟨_, _, hrecord⟩ := bind_pure_ok h
    rw [yard_recordIdempotency hrecord]
    exact admitWorkflow_ok policy (tenantOrDefault_ne _) hadmit

theorem submitJobOperation_ok (policy : Policy)
    (h : submitJobOperation sha256 options submission entropy now db = .ok result db') :
    ReflTransGen (Step policy) (yardOf db) (yardOf db') := by
  obtain ⟨_, _, h⟩ := lift_bind h
  rcases readControlAction_bind h with ⟨_, _, h⟩ | ⟨_, h⟩
  · obtain ⟨_, rfl⟩ := pure_ok h
    exact .refl
  · obtain ⟨job, _, hadmit, h⟩ := bind_ok h
    obtain ⟨_, _, hrecord⟩ := bind_pure_ok h
    rw [yard_insertControlAction hrecord]
    exact admitJob_ok policy (JobSpec.normalize_normalize _) hadmit

theorem submitDagOperation_ok (policy : Policy)
    (h : submitDagOperation sha256 options dagID submission entropy now db = .ok result db') :
    ReflTransGen (Step policy) (yardOf db) (yardOf db') := by
  obtain ⟨_, _, h⟩ := lift_bind h
  rcases readControlAction_bind h with ⟨_, _, h⟩ | ⟨_, h⟩
  · obtain ⟨_, rfl⟩ := pure_ok h
    exact .refl
  · obtain ⟨jobs, _, hadmit, h⟩ := bind_ok h
    obtain ⟨_, _, hdag, h⟩ := bind_ok h
    obtain ⟨_, _, hnodes, h⟩ := bind_ok h
    obtain ⟨_, _, hrecord⟩ := bind_pure_ok h
    rw [yard_insertControlAction hrecord, Preserves.ok (.forM (yard_insertDagNode dagID)) hnodes,
      Preserves.ok (yard_insertDag _ _) hdag]
    exact admitWorkflow_ok policy (tenantOrDefault_ne _) hadmit

structure Complies (policy : Policy) (env : Env) (db : Database) (now : Time) (op : Op) : Prop where
  granting : policy.granting ↔ grantsLeases op = true
  gated : policy.gated → respectsGate db op = true
  tidy : policy.tidy → sparesLeases env db now op = true
  backoff : completes op = true → ∀ id attemptNo time, Backoff env.sha256 now id attemptNo time →
    policy.backoff id attemptNo time
  edges : ∀ cause, causeOf op = some cause → policy.Allows cause

theorem control_ok {command : JobControlCommand} (proper : Proper command)
    (fences : Fences (yardOf db)) (complies : Complies policy env db now op) (cause : causeOf op =
      some (.control command.jobID command.receiptAction command.nextState))
    (gate : command.release = true → respectsGate db op = true →
      parentsSucceeded db command.jobID = true) (failed : command.nextState.unsuccessful = true →
      [command.jobID].filter (isAlive db) ⊆ failedJobs env db now op)
    (h : applyJobControl env.sha256 command now db = .ok receipt db') :
    ReflTransGen (Step policy) (yardOf db) (yardOf db') := by
  refine applyJobControl_ok proper fences (complies.edges _ cause) ?_ ?_ h
  · intro hpolicy hrelease
    exact parentsSucceeded_iff.mp (gate hrelease (complies.gated hpolicy))
  · intro hpolicy hfailed job hjob halive
    replace hjob : db.jobs.get? command.jobID = some job := hjob
    exact clear_of_spares (complies.tidy hpolicy) (failed hfailed
      (List.mem_filter.mpr ⟨List.mem_singleton_self _, by simp [isAlive, hjob, halive]⟩))

theorem program_ok {op : Op} (sound : Sound (yardOf db)) (complies : Complies policy env db now op)
    (h : op.program env options now db = .ok reply db') :
    ReflTransGen (Step policy) (yardOf db) (yardOf db') := by
  have hquiet : grantsLeases op = false → ¬policy.granting := by
    intro hgrants hgranting
    rw [complies.granting.mp hgranting] at hgrants
    cases hgrants
  cases op with
  | submitJob submission entropy =>
    obtain ⟨_, _, h⟩ := bind_pure_ok h
    exact submitJob_ok policy h
  | submitWorkflow submission entropy =>
    obtain ⟨_, _, h⟩ := bind_pure_ok h
    exact submitWorkflow_ok policy h
  | submitJobOperation submission entropy =>
    obtain ⟨_, _, h⟩ := bind_pure_ok h
    exact submitJobOperation_ok policy h
  | submitDagOperation dagID submission entropy =>
    obtain ⟨_, _, h⟩ := bind_pure_ok h
    exact submitDagOperation_ok policy h
  | recordControlAction request =>
    exact steps_of_kept (.bind (relates_recordControlAction (yard_filed now) _ _) fun _ => .pure _) h
  | recordOperatorAction request =>
    exact steps_of_kept (.bind (relates_recordOperatorAction (yard_filed now) _ _) fun _ => .pure _) h
  | cancelJob command =>
    obtain ⟨_, _, h⟩ := bind_pure_ok h
    exact control_ok (proper_cancel command) sound.fences complies rfl
      (fun hrelease => by cases hrelease) (fun _ => List.Subset.refl _) h
  | forceJobAction command action =>
    obtain ⟨_, _, h⟩ := bind_pure_ok h
    refine control_ok (proper_force command action) sound.fences complies rfl ?_ ?_ h
    · intro hrelease hgate
      change (!action.releases || parentsSucceeded db command.jobID) = true at hgate
      rw [show action.releases = true from hrelease] at hgate
      exact hgate
    · intro hfailed
      change _ ⊆ if action.state.unsuccessful then [command.jobID].filter (isAlive db) else []
      rw [if_pos (show action.state.unsuccessful = true from hfailed)]
      exact List.Subset.refl _
  | redriveDeadLetterControl command entropy =>
    obtain ⟨_, _, h⟩ := bind_pure_ok h
    exact redriveDeadLetterControl_ok policy sound.ledger h
  | retryJobControl command entropy =>
    obtain ⟨_, _, h⟩ := bind_pure_ok h
    exact retryJobControl_ok policy h
  | redriveDeadLetter jobID idempotencyKey requestDigest actor entropy =>
    obtain ⟨_, _, h⟩ := bind_pure_ok h
    exact redriveDeadLetter_ok policy sound.ledger h
  | saveDag id tenantID idempotencyKey requestDigest nodes =>
    exact steps_of_kept (.bind (.bindOption (.query _) (.bind (yard_insertDag _ _) fun _ =>
      .forM (yard_insertDagNode id)) fun _ => .require _ _) fun _ => .pure _) h
  | registerWorker workerID capacitySlots =>
    exact steps_of_kept (.bind (relates_registerWorker (fun _ _ => rfl) _ _) fun _ => .pure _) h
  | heartbeatWorker workerID =>
    exact steps_of_kept (.bind (relates_heartbeatWorker (fun _ _ => rfl) _) fun _ => .pure _) h
  | acquire request tokens =>
    obtain ⟨_, _, h⟩ := bind_pure_ok h
    exact (acquire_ok (complies.granting.mpr rfl) (complies.edges _ rfl) h).steps
  | markRunning workerID ref =>
    obtain ⟨_, _, h⟩ := bind_pure_ok h
    exact markRunningTx_ok (complies.edges _ rfl) h
  | markRunningBatch workerID refs =>
    obtain ⟨_, _, h⟩ := bind_pure_ok h
    exact batchTx_ok (fun _ _ _ _ _ _ hitem => markRunningTx_ok (complies.edges _ rfl) hitem)
      (fun _ _ _ _ _ herror _ => markRunningTx_error herror) .refl h
  | heartbeat workerID refs leaseTTL =>
    obtain ⟨_, _, h⟩ := bind_pure_ok h
    exact heartbeat_ok h
  | complete completion =>
    obtain ⟨_, _, h⟩ := bind_pure_ok h
    refine applyCompletionTx_ok sound.graph (complies.edges _ rfl) (complies.backoff rfl) ?_ h
    intro hpolicy job outcome hjob hleased houtcome hfailed
    apply clear_of_spares (complies.tidy hpolicy)
    exact List.mem_map.mpr ⟨completion, List.mem_filter.mpr ⟨List.mem_singleton_self _,
      failsJob_of_outcome hjob hleased houtcome hfailed⟩, rfl⟩
  | completeBatch completions =>
    obtain ⟨_, _, h⟩ := bind_pure_ok h
    refine completeBatch_ok (hquiet rfl) sound.toCoherent (complies.edges _ rfl)
      (complies.backoff rfl) ?_ h
    intro hpolicy completion hmem job outcome hjob hleased houtcome hfailed
    apply clear_of_spares (complies.tidy hpolicy)
    exact List.mem_map.mpr ⟨completion, List.mem_filter.mpr ⟨hmem,
      failsJob_of_outcome hjob hleased houtcome hfailed⟩, rfl⟩
  | promoteDue limit =>
    obtain ⟨_, _, h⟩ := bind_pure_ok h
    exact promoteDue_ok sound.graph (complies.edges _ rfl) h
  | reapExpired limit =>
    obtain ⟨_, _, h⟩ := bind_pure_ok h
    refine reapExpired_ok (hquiet rfl) sound.toCoherent (complies.edges _ rfl) ?_ h
    intro hpolicy id expired hmem hexhausted
    apply clear_of_spares (complies.tidy hpolicy)
    exact List.mem_map.mpr ⟨(id, expired), List.mem_filter.mpr ⟨hmem, hexhausted⟩, rfl⟩
  | createCronTrigger submission entropy =>
    exact steps_of_kept (.bind (relates_createCronTrigger
      ⟨fun _ _ => rfl, fun _ _ _ _ => rfl⟩ _ _) fun _ => .pure _) h
  | recordOccurrence triggerID nominal jobID nextFireAt firedAt =>
    have hwrites : Writes now .text (Unchanged yardOf) .occurrences :=
      ⟨fun _ _ _ _ => rfl, fun _ _ _ _ => rfl⟩
    exact steps_of_kept (.bind (relates_recordOccurrence hwrites _ _ _ _ _) fun _ => .pure _) h
  | recordDelivery triggerID stream messageID jobID deliveredAt =>
    have hwrites : Writes now .text (Unchanged yardOf) .deliveries := fun _ _ _ _ => rfl
    exact steps_of_kept (.bind (relates_recordDelivery hwrites _ _ _ _ _) fun _ => .pure _) h
  | reopen options =>
    obtain ⟨_, rfl⟩ := pure_ok h
    exact .refl

def callTime (store : StoreState) (call : Call) : Time := store.clock.writeTime call.reading

theorem step_eq (env : Env) (store : StoreState) (call : Call) :
    (∃ options, call.op = .reopen options ∧
      step env store call = (.ok .done, openStore options store.db)) ∨
      step env store call = execute env store call := by
  unfold step
  split
  · rename_i options hop
    exact .inl ⟨options, hop, rfl⟩
  · exact .inr rfl

theorem step_perform (env : Env) (store : StoreState) (reading : Reading)
    (hopen : ∀ options, op ≠ .reopen options) (hearly : op.early = none) (hgated : op.gated = true)
    :
    step env store ⟨op, reading⟩ =
      store.perform reading fun now => op.program env store.options now := by
  have hstep : step env store ⟨op, reading⟩ = execute env store ⟨op, reading⟩ := by
    unfold step
    split
    · rename_i options heq
      exact (hopen options heq).elim
    · rfl
  rw [hstep]
  unfold execute
  rw [hearly]
  dsimp only
  rw [if_pos hgated]

theorem step_map {α : Type} {op : Op} (env : Env) (store : StoreState) (reading : Reading)
    (program : Time → Tx α) (view : α → Reply)
    (hopen : ∀ options, op ≠ .reopen options) (hearly : op.early = none) (hgated : op.gated = true)
    (hprogram : ∀ now, op.program env store.options now =
      program now >>= fun value => pure (view value)) :
    step env store ⟨op, reading⟩ =
      let result := commit (program (store.clock.writeTime reading)) store.db
      (result.1.map view, { store with db := result.2, clock := store.clock.tick reading }) := by
  rw [step_perform env store reading hopen hearly hgated]
  unfold StoreState.perform
  dsimp only
  rw [hprogram, commit_map]

theorem step_promoteDue (hlimit : 1 ≤ limit) : step env store ⟨.promoteDue limit, reading⟩ =
      let result := commit (promoteDue (store.clock.writeTime reading) limit) store.db
      (result.1.map .promoted, { store with db := result.2, clock := store.clock.tick reading }) := by
  refine step_map env store reading (fun now => promoteDue now limit) .promoted
    (fun _ => Op.noConfusion) ?_ rfl fun _ => rfl
  exact if_neg (by omega)

theorem step_acquire (hearly : request.early = none) :
    step env store ⟨.acquire request tokens, reading⟩ =
      let result := commit (acquire env.sha256 request tokens (store.clock.writeTime reading)) store.db
      (result.1.map .leases, { store with db := result.2, clock := store.clock.tick reading }) := by
  refine step_map env store reading (acquire env.sha256 request tokens) .leases
    (fun _ => Op.noConfusion) ?_ rfl fun _ => rfl
  change request.early.map _ = none
  rw [hearly, Option.map_none]

theorem program_of_step (hopen : ∀ options, op ≠ .reopen options) (hearly : op.early = none)
    (hgated : op.gated = true) (h : (step env store ⟨op, reading⟩).1 = .ok reply) :
    op.program env store.options (store.clock.writeTime reading) store.db =
      .ok reply (step env store ⟨op, reading⟩).2.db := by
  rw [step_perform env store reading hopen hearly hgated] at h ⊢
  unfold StoreState.perform at h ⊢
  dsimp only at h ⊢
  rcases commit_cases (op.program env store.options (store.clock.writeTime reading)) store.db with
    ⟨value, db', hrun, hcommit⟩ | ⟨error, hcommit⟩
  · rw [hcommit] at h ⊢
    cases h
    exact hrun
  · rw [hcommit] at h
    cases h

theorem step_cases (env : Env) (store : StoreState) (call : Call) :
    (step env store call).2.db = store.db ∨
      ∃ now reply, (call.op.gated = true → now = callTime store call) ∧
        (step env store call).1 = .ok reply ∧
        call.op.program env store.options now store.db = .ok reply (step env store call).2.db := by
  rcases step_eq env store call with ⟨options, _, hstep⟩ | hstep
  · rw [hstep]
    exact .inl rfl
  · rw [hstep]
    unfold execute
    cases call.op.early with
    | some reply => exact .inl rfl
    | none =>
      dsimp only
      by_cases hgated : call.op.gated = true
      · rw [if_pos hgated]
        unfold StoreState.perform
        rcases commit_cases (call.op.program env store.options (callTime store call)) store.db with
          ⟨reply, db', hrun, hcommit⟩ | ⟨error, hcommit⟩
        · exact .inr ⟨callTime store call, reply, fun _ => rfl, congrArg Prod.fst hcommit,
            hrun.trans (congrArg (EStateM.Result.ok reply) (congrArg Prod.snd hcommit).symm)⟩
        · exact .inl (congrArg Prod.snd hcommit)
      · rw [if_neg hgated]
        unfold StoreState.transact
        rcases commit_cases (call.op.program env store.options 0) store.db with
          ⟨reply, db', hrun, hcommit⟩ | ⟨error, hcommit⟩
        · exact .inr ⟨0, reply, fun hfalse => (hgated hfalse).elim, congrArg Prod.fst hcommit,
            hrun.trans (congrArg (EStateM.Result.ok reply) (congrArg Prod.snd hcommit).symm)⟩
        · exact .inl (congrArg Prod.snd hcommit)

theorem spares_of_ungated (h : op.gated = false) : sparesLeases env db now op = true := by
  cases op <;> first | rfl | cases h

def Policy.during (policy : Policy) (op : Op) : Policy :=
  { policy with granting := grantsLeases op = true }

theorem gated_of_completes (h : completes op = true) : op.gated = true := by
  cases op <;> first | rfl | cases h

structure Keeps (env : Env) (policy : Policy) (store : StoreState) (call : Call) : Prop where
  gated : policy.gated → respectsGate store.db call.op = true
  tidy : policy.tidy → sparesLeases env store.db (callTime store call) call.op = true
  backoff : completes call.op = true → ∀ id attemptNo time,
    Backoff env.sha256 (callTime store call) id attemptNo time → policy.backoff id attemptNo time
  edges : ∀ cause, causeOf call.op = some cause → policy.Allows cause

theorem step_ok (sound : Sound (yardOf store.db)) (h : Keeps env policy store call) :
    ReflTransGen (Step (Policy.during policy call.op)) (yardOf store.db)
      (yardOf (step env store call).2.db) := by
  rcases step_cases env store call with hsame | ⟨now, reply, htime, _, hrun⟩
  · rw [hsame]
  · refine program_ok sound ⟨Iff.rfl, h.gated, fun hpolicy => ?_, fun hcompletes => ?_, h.edges⟩
      hrun
    · cases hgated : call.op.gated with
      | true =>
        rw [htime hgated]
        exact h.tidy hpolicy
      | false => exact spares_of_ungated hgated
    · rw [htime (gated_of_completes hcompletes)]
      exact h.backoff hcompletes

theorem step_any (sound : Sound (yardOf store.db)) :
    ReflTransGen (Step (Policy.during anyPolicy call.op)) (yardOf store.db)
      (yardOf (step env store call).2.db) :=
  step_ok sound ⟨fun hfalse => hfalse.elim, fun hfalse => hfalse.elim,
    fun _ _ _ _ _ => trivial, fun cause _ => anyPolicy_allows cause⟩

def callPolicy (op : Op) : Policy where
  edges := fun id eventType state next =>
    ∃ cause, causeOf op = some cause ∧ Edge cause id eventType state next

theorem step_changes {id : String} (sound : Sound (yardOf store.db))
    (hrow : store.db.jobs.get? id = some row)
    (hrow' : (step env store call).2.db.jobs.get? id = some row') :
    row'.state = row.state ∨
      ∃ cause, causeOf call.op = some cause ∧ cause.Changes id row.state row'.state := by
  have hsteps : ReflTransGen (Step (Policy.during (callPolicy call.op) call.op)) _
      (yardOf (step env store call).2.db) :=
    step_ok sound ⟨fun hfalse => hfalse.elim, fun hfalse => hfalse.elim,
      fun _ _ _ _ _ => trivial, fun cause hcause _ _ _ _ hedge => ⟨cause, hcause, hedge⟩⟩
  have hleads := leads_of_micros (micros_of_steps hsteps) hrow hrow'
  cases hcause : causeOf call.op with
  | none =>
    -- Without a cause the policy has no edges.
    rcases ReflTransGen.cases_head hleads with heq | ⟨_, ⟨_, _, hfalse, _⟩, _⟩
    · exact .inl heq.symm
    · rw [hcause] at hfalse
      cases hfalse
  | some cause =>
    have hedges : ∀ eventType state next, (callPolicy call.op).edges id eventType state next →
        Edge cause id eventType state next := by
      rintro eventType state next ⟨other, hother, hedge⟩
      rw [hcause, Option.some.injEq] at hother
      exact hother ▸ hedge
    exact (hleads.changes hedges).imp_right fun hchanges => ⟨cause, rfl, hchanges⟩

end RailYard.Refinement
