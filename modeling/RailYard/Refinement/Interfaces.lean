import RailYard.Library.Agreement
import RailYard.Refinement.Commands

/-! The two interfaces that take submissions. They admit jobs alike, up to the
payloads of events, and differ in the tables where they keep their records. -/
namespace RailYard.Refinement
open Library Library.Transaction Domain Store
open Lifecycle

/-- What the two interfaces leave behind alike. Of an event the payload is left out. -/
structure Admitted where
  jobs : Table String JobRow
  jobDependencies : Table (String × String) Unit
  tenantLimits : Table String TenantRow
  queueState : Table (String × String) QueueRow
  jobCompletions : Table String CompletionRow
  deadLetters : Table String DeadLetterRow
  readySeq : Int
  events : List (String × EventType × JobState × Int)

def admitted (db : Database) : Admitted where
  jobs := db.jobs
  jobDependencies := db.jobDependencies
  tenantLimits := db.tenantLimits
  queueState := db.queueState
  jobCompletions := db.jobCompletions
  deadLetters := db.deadLetters
  readySeq := db.readySeq
  events := db.events.map fun event =>
    (event.jobID, event.eventType, event.state, event.stateVersion)

section Admission

theorem visible_jobs : Visible admitted Store.jobs where
  read _ _ h := congrArg Admitted.jobs h
  write _ _ table h := congrArg (fun view => { view with jobs := table }) h

theorem visible_jobDependencies : Visible admitted Store.jobDependencies where
  read _ _ h := congrArg Admitted.jobDependencies h
  write _ _ table h := congrArg (fun view => { view with jobDependencies := table }) h

theorem visible_tenantLimits : Visible admitted Store.tenantLimits where
  read _ _ h := congrArg Admitted.tenantLimits h
  write _ _ table h := congrArg (fun view => { view with tenantLimits := table }) h

theorem visible_queueState : Visible admitted Store.queueState where
  read _ _ h := congrArg Admitted.queueState h
  write _ _ table h := congrArg (fun view => { view with queueState := table }) h

theorem visible_jobCompletions : Visible admitted Store.jobCompletions where
  read _ _ h := congrArg Admitted.jobCompletions h
  write _ _ table h := congrArg (fun view => { view with jobCompletions := table }) h

theorem visible_deadLetters : Visible admitted Store.deadLetters where
  read _ _ h := congrArg Admitted.deadLetters h
  write _ _ table h := congrArg (fun view => { view with deadLetters := table }) h

theorem alike_readySeqIf (ready : Prop) [Decidable ready] :
    Alike admitted (readySeqIf ready) (readySeqIf ready) := by
  unfold readySeqIf
  split
  · exact .bind (.mutate fun _ _ h =>
      congrArg (fun view => { view with readySeq := view.readySeq + 1 }) h) fun _ =>
      .query fun _ _ h => congrArg Admitted.readySeq h
  · exact .pure 0

theorem alike_addEvent (storage storage' : StorageClass) (jobID : String)
    (eventType : EventType) (state : JobState) (stateVersion : Int)
    (payload payload' : EventPayload) :
    Alike admitted (addEvent storage jobID eventType state stateVersion now payload)
      (addEvent storage' jobID eventType state stateVersion now payload') := by
  refine .mutate fun db db' h => ?_
  have hevents : ∀ (db : Database) (event : EventRow),
      admitted { db with events := db.events ++ [event] } = { admitted db with
        events := (admitted db).events ++
          [(event.jobID, event.eventType, event.state, event.stateVersion)] } := by
    intro db event
    unfold admitted
    rw [List.map_append]
    rfl
  rw [hevents, hevents, h]

theorem alike_ensureAdmission (options : Options) (tenantID : String) (incoming : Nat) :
    Alike admitted (ensureAdmission options tenantID incoming)
      (ensureAdmission options tenantID incoming) := by
  refine .bind (.insertIfAbsent visible_tenantLimits _ _) fun _ =>
    .bind (.select visible_tenantLimits _) fun limits => ?_
  cases limits with
  | none => exact .throw _
  | some limits =>
    refine .bind (.query fun db db' h => ?_) fun _ => .require _ _
    unfold activeJobs
    rw [show db.jobs = db'.jobs from congrArg Admitted.jobs h]

theorem alike_ensureQueue (tenantID queue : String) (now : Time) :
    Alike admitted (ensureQueue tenantID queue now) (ensureQueue tenantID queue now) :=
  .bind (.insertIfAbsent visible_queueState _ _) fun _ => .pure _

theorem alike_insertJob (job : Job) : Alike admitted (insertJob job) (insertJob job) :=
  .bind (.require _ _) fun _ => .insert visible_jobs _ _ _

theorem alike_insertDependency (context jobID dependsOnID : String) :
    Alike admitted (insertDependency context jobID dependsOnID)
      (insertDependency context jobID dependsOnID) :=
  .bind (.require _ _) fun _ => .insert visible_jobDependencies _ _ _

theorem alike_insertDeadLetter (jobID : String) (failure : Option Failure) :
    Alike admitted (insertDeadLetter jobID failure now) (insertDeadLetter jobID failure now) := by
  cases failure with
  | none => exact .throw _
  | some failure => exact .insert visible_deadLetters _ _ _

theorem validateExistingDependencies_congr (h : admitted db = admitted db') (tenantID : String)
    (dependencies : List String) :
    validateExistingDependencies db tenantID dependencies =
      validateExistingDependencies db' tenantID dependencies := by
  have hcheck : checkDependency db tenantID = checkDependency db' tenantID := by
    funext check dependencyID
    unfold checkDependency
    rw [show db.jobs = db'.jobs from congrArg Admitted.jobs h]
  unfold validateExistingDependencies
  rw [hcheck]

theorem alike_admitJob (options : Options) (storage storage' : StorageClass) (spec : JobSpec)
    (actor actor' : String) (entropy : Entropy) :
    Alike admitted (admitJob options storage spec actor entropy now)
      (admitJob options storage' spec actor' entropy now) :=
  .bind (.lift _) fun _ =>
    .bind (.query fun _ _ h => validateExistingDependencies_congr h _ _) fun _ =>
    .bind (.lift _) fun _ => .bind (alike_ensureAdmission _ _ _) fun _ =>
    .bind (alike_ensureQueue _ _ _) fun _ => .bind (alike_readySeqIf _) fun _ =>
    .bind (alike_insertJob _) fun _ => .bind (.forM fun _ => alike_insertDependency _ _ _) fun _ =>
    .bind (alike_addEvent _ _ _ _ _ _ _ _) fun _ =>
    .bind (.onlyIf (.bind
      (.bind (.require _ _) fun _ => .insert visible_jobCompletions _ _ _) fun _ =>
      alike_insertDeadLetter _ _)) fun _ => .pure _

theorem alike_admitNodes (tenantID : String) (now : Time) (entropy : Nat → Entropy) (index : Nat)
    (nodes : List (JobSpec × List Nat)) :
    Alike admitted (admitNodes tenantID now entropy index nodes)
      (admitNodes tenantID now entropy index nodes) := by
  induction nodes generalizing index with
  | nil => exact .pure []
  | cons node rest ih =>
    exact .bind (.bind (alike_ensureQueue _ _ _) fun _ => .bind (alike_readySeqIf _) fun _ =>
      .bind (alike_insertJob _) fun _ => .pure _) fun _ => .bind (ih _) fun _ => .pure _

theorem alike_admitWorkflow (options : Options) (storage storage' : StorageClass)
    (tenantID : String) (nodes : List WorkflowNode) (actor actor' : String)
    (entropy : Nat → Entropy) :
    Alike admitted (admitWorkflow options storage tenantID nodes actor entropy now)
      (admitWorkflow options storage' tenantID nodes actor' entropy now) :=
  .bind (.lift _) fun _ => .bind (alike_ensureAdmission _ _ _) fun _ =>
    .bind (alike_admitNodes _ _ _ _ _) fun _ =>
    .bind (.forM fun _ => alike_insertDependency _ _ _) fun _ =>
    .bind (.forM fun _ => alike_addEvent _ _ _ _ _ _ _ _) fun _ => .pure _

end Admission

section Recording

theorem recordIdempotency_ok_of (hencodable : row.response.encodable = true)
    (habsent : db.idempotencyRequests.get? (tenantID, key) = none) :
    recordIdempotency tenantID key row db = .ok () { db with
      idempotencyRequests := db.idempotencyRequests.insert (tenantID, key) row } :=
  (bind_run (require_run _ _ hencodable)).trans (insert_run _ _ habsent)

theorem recordIdempotency_error_of (hencodable : ¬row.response.encodable = true) :
    recordIdempotency tenantID key row db = .error (.text "encode response") db :=
  bind_run_error (require_run_error _ _ hencodable)

structure Unrecorded (sha256 : Hash) (db : Database) (action : ControlAction) : Prop where
  request : db.operationRequests.get?
    (action.tenantID, action.action, action.idempotencyKey) = none
  audits : ∀ entry ∈ db.auditEvents.rows, AuditRow.scope entry.2 ≠
    (action.tenantID, action.action, action.idempotencyKey)
  auditID : db.auditEvents.get? (newAuditEvent sha256 action).id = none

theorem insertControlAction_ok_of (hencodable : action.response.encodable = true)
    (fresh : Unrecorded sha256 db action) :
    ∃ requests audits, insertControlAction sha256 action db = .ok () { db with
      operationRequests := requests, auditEvents := audits } := by
  have hunique : (db.auditEvents.rows.all fun entry =>
      decide (AuditRow.scope entry.2 ≠
        (action.tenantID, action.action, action.idempotencyKey))) = true := by
    rw [List.all_eq_true]
    exact fun entry hentry => decide_eq_true (fresh.audits entry hentry)
  refine ⟨_, _, (bind_run (require_run _ _ hencodable)).trans ((bind_run
    (insert_run _ _ fresh.request)).trans ((bind_run rfl).trans ((bind_run
    (require_run _ _ hunique)).trans (insert_run _ _ ?_))))⟩
  exact fresh.auditID

theorem insertControlAction_error_of (hencodable : ¬action.response.encodable = true) :
    insertControlAction sha256 action db = .error (.text "encode control response") db :=
  bind_run_error (require_run_error _ _ hencodable)

theorem insertDag_ok_of {id : String}
    (hkey : ∀ entry ∈ db.dagRuns.rows, entry.2.idempotencyKey ≠ row.idempotencyKey)
    (habsent : db.dagRuns.get? id = none) :
    insertDag id row db = .ok () { db with dagRuns := db.dagRuns.insert id row } := by
  have hunique : (db.dagRuns.rows.all fun entry =>
      decide (entry.2.idempotencyKey ≠ row.idempotencyKey)) = true := by
    rw [List.all_eq_true]
    exact fun entry hentry => decide_eq_true (hkey entry hentry)
  exact (bind_run rfl).trans ((bind_run (require_run _ _ hunique)).trans (insert_run _ _ habsent))

/-- A node fits into a table if neither its job nor its key in the DAG is taken. -/
def Fits (dagID : String) (node : DagNode) (entry : (String × String) × DagJobRow) : Prop :=
  entry.1.2 ≠ node.jobID ∧ (entry.1.1 ≠ dagID ∨ entry.2.nodeKey ≠ node.key)

theorem insertDagNode_ok_of (hjob : (db.jobs.get? node.jobID).isSome = true)
    (hfits : ∀ entry ∈ db.dagJobs.rows, Fits dagID node entry) :
    db.dagJobs.get? (dagID, node.jobID) = none ∧
      insertDagNode dagID node db = .ok () { db with
        dagJobs := db.dagJobs.insert (dagID, node.jobID) ⟨node.key, node.name⟩ } := by
  have habsent : db.dagJobs.get? (dagID, node.jobID) = none := by
    rw [Option.eq_none_iff_forall_ne_some]
    intro row hrow
    exact (hfits _ ((Table.mem_rows_iff _ _ _).mpr hrow)).1 rfl
  have hvalid : ((db.jobs.get? node.jobID).isSome && db.dagJobs.rows.all fun entry =>
      decide (entry.1.2 ≠ node.jobID) &&
        (decide (entry.1.1 ≠ dagID) || decide (entry.2.nodeKey ≠ node.key))) = true := by
    rw [hjob, Bool.true_and, List.all_eq_true]
    intro entry hentry
    simpa [Fits] using hfits entry hentry
  exact ⟨habsent, (bind_run rfl).trans
    ((bind_run (require_run _ _ hvalid)).trans (insert_run _ _ habsent))⟩

theorem insertDagNodes_ok_of {nodes : List DagNode} (hids : (nodes.map DagNode.jobID).Nodup)
    (hkeys : (nodes.map DagNode.key).Nodup)
    (hjobs : ∀ node ∈ nodes, (db.jobs.get? node.jobID).isSome = true)
    (hfits : ∀ node ∈ nodes, ∀ entry ∈ db.dagJobs.rows, Fits dagID node entry) :
    ∃ table, nodes.forM (insertDagNode dagID) db = .ok () { db with dagJobs := table } := by
  induction nodes generalizing db with
  | nil => exact ⟨db.dagJobs, rfl⟩
  | cons node rest ih =>
    rw [List.map_cons, List.nodup_cons] at hids hkeys
    rw [List.forall_mem_cons] at hjobs hfits
    obtain ⟨habsent, hrun⟩ := insertDagNode_ok_of hjobs.1 hfits.1
    have hrest : ∀ other ∈ rest, ∀ entry ∈ (db.dagJobs.insert (dagID, node.jobID)
        ⟨node.key, node.name⟩).rows, Fits dagID other entry := by
      intro other hother entry hentry
      rw [Table.rows_insert _ _ habsent] at hentry
      rcases List.mem_append.mp hentry with hold | hnew
      · exact hfits.2 other hother entry hold
      · rw [List.mem_singleton.mp hnew]
        refine ⟨fun heq => hids.1 ?_, .inr fun heq => hkeys.1 ?_⟩
        · exact List.mem_map.mpr ⟨other, hother, heq.symm⟩
        · exact List.mem_map.mpr ⟨other, hother, heq.symm⟩
    have hnext : ∃ table, rest.forM (insertDagNode dagID) { db with
        dagJobs := db.dagJobs.insert (dagID, node.jobID) ⟨node.key, node.name⟩ } =
        .ok () { db with dagJobs := table } := ih hids.2 hkeys.2 hjobs.2 hrest
    obtain ⟨table, htable⟩ := hnext
    exact ⟨table, (bind_run hrun).trans htable⟩

end Recording

section Nodes

def NodesExist (db : Database) : Prop :=
  ∀ entry ∈ db.dagJobs.rows, (db.jobs.get? entry.1.2).isSome = true

def NodesKept (db db' : Database) : Prop := NodesExist db → NodesExist db'

instance : IsPreorder Database NodesKept where
  refl _ := id
  trans _ _ _ first second h := second (first h)

theorem NodesKept.of_jobs (hjobs : JobsKept db db') (hnodes : db'.dagJobs = db.dagJobs) :
    NodesKept db db' := by
  intro h entry hentry
  rw [hnodes] at hentry
  exact hjobs _ (h entry hentry)

theorem nodesKept_dagJob (db : Database) (key : String × String) (row : DagJobRow)
    (hjob : (db.jobs.get? key.2).isSome = true) :
    NodesKept db { db with dagJobs := db.dagJobs.insert key row } := by
  intro h entry hentry
  change entry ∈ (db.dagJobs.insert key row).rows at hentry
  cases hrow : db.dagJobs.get? key with
  | some old =>
    rw [Table.insert_of_get? _ _ hrow] at hentry
    exact h entry hentry
  | none =>
    rw [Table.rows_insert _ _ hrow] at hentry
    rcases List.mem_append.mp hentry with hold | hnew
    · exact h entry hold
    · rw [List.mem_singleton.mp hnew]
      exact hjob

theorem nodesKept_lives (now : Time) : Lives now admission NodesKept := by
  refine ⟨⟨⟨fun db id row _ _ => .of_jobs (jobsKept_insert db id row) rfl,
    ?_, ?_, ?_, ?_, ?_, ?_, ?_⟩, fun db id change _ => .of_jobs (jobsKept_modify db id change) rfl,
    ?_, nodesKept_dagJob, ?_⟩, ?_, ?_⟩
  all_goals intros; exact refl_of NodesKept _

theorem nodesKept_writes (now : Time) (area : Area) : Writes now note NodesKept area := by
  cases area <;> dsimp only [Writes] <;> repeat' constructor
  all_goals intros; exact refl_of NodesKept _

theorem nodesExist_run (env : Env) (options : Options) (activities : List Activity) :
    NodesExist (run env (freshStore options) activities).db :=
  run_related NodesKept (refl_of NodesKept) (trans_of NodesKept)
    (fun _ _ => step_relates nodesKept_lives (fun now => nodesKept_writes now _)
      fun _ _ _ _ => id) (freshStore options) activities fun _ h => nomatch h

end Nodes

section Jobs

variable {jobs : List Job}

theorem checkKeys_nodup (h : checkKeys seen nodes = .ok ()) :
    (nodes.map WorkflowNode.key).Nodup ∧ ∀ node ∈ nodes, node.key ∉ seen := by
  induction nodes generalizing seen with
  | nil => exact ⟨.nil, fun _ hnode => nomatch hnode⟩
  | cons node rest ih =>
    unfold checkKeys at h
    split at h
    · cases h
    · split at h
      · cases h
      · rename_i hseen
        obtain ⟨hnodup, hfresh⟩ := ih h
        refine ⟨List.nodup_cons.mpr ⟨fun hmem => ?_, hnodup⟩, ?_⟩
        · obtain ⟨other, hother, heq⟩ := List.mem_map.mp hmem
          exact hfresh other hother (heq ▸ List.mem_cons_self ..)
        · rw [List.forall_mem_cons]
          exact ⟨hseen, fun other hother hmem =>
            hfresh other hother (List.mem_cons_of_mem _ hmem)⟩

theorem validateWorkflow_nodes (h : validateWorkflow options tenantID nodes = .ok resolved) :
    (nodes.map WorkflowNode.key).Nodup ∧ resolved.length = nodes.length := by
  unfold validateWorkflow at h
  split at h
  · cases h
  · obtain ⟨_, hkeys, h⟩ := except_bind_ok h
    obtain ⟨found, hfound, h⟩ := except_bind_ok h
    split at h
    · cases h
    · cases h
      exact ⟨(checkKeys_nodup hkeys).1, (mapM_ok (fun _ _ _ => trivial) hfound).1⟩

structure WorkflowJobs (nodes : List WorkflowNode) (jobs : List Job) (db db' : Database) :
    Prop where
  keys : (nodes.map WorkflowNode.key).Nodup
  ids : (jobs.map Job.id).Nodup
  length : jobs.length = nodes.length
  fresh : ∀ job ∈ jobs, db.jobs.get? job.id = none
  found : ∀ job ∈ jobs, (db'.jobs.get? job.id).isSome = true

theorem admitWorkflow_jobs
    (h : admitWorkflow options storage tenantID nodes actor entropy now db = .ok jobs db') :
    WorkflowJobs nodes jobs db db' := by
  obtain ⟨resolved, db1, db2, hvalidate, hadmission, hnodes, hyard⟩ := admitWorkflow_enrols h
  obtain ⟨tenants, hyard1, _⟩ := ensureAdmission_ok anyPolicy hadmission
  have enrolled := admitNodes_ok hnodes
  obtain ⟨hkeys, hlength⟩ := validateWorkflow_nodes hvalidate
  have hjobs1 : db1.jobs = db.jobs := congrArg Yard.jobs hyard1
  have hjobs : db'.jobs = db1.jobs.insertAll (jobs.map fun job => (job.id, Job.toRow job)) :=
    (congrArg Yard.jobs hyard).trans (congrArg Yard.jobs enrolled.yard_eq)
  refine ⟨hkeys, enrolled.nodup, enrolled.length.trans hlength, ?_, ?_⟩
  · intro job hjob
    rw [← hjobs1]
    exact enrolled.fresh job hjob
  · intro job hjob
    have hmem : (job.id, Job.toRow job) ∈ jobs.map fun job => (job.id, Job.toRow job) :=
      List.mem_map.mpr ⟨job, hjob, rfl⟩
    have hfresh : db1.jobs.get? job.id = none := enrolled.fresh job hjob
    rw [hjobs, Table.get?_insertAll_new _ (by rw [List.map_map]; exact enrolled.nodup) hmem
      hfresh]
    rfl

end Jobs

end RailYard.Refinement
