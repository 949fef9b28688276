import RailYard.Refinement.Commands

/-! What links a dead letter to the job made from it. No call but a redrive
touches the links, and a redrive that is carried out makes one job and sets the
link of its dead letter, which was open. -/
namespace RailYard.Refinement
open Library Library.Transaction Domain Store
open Lifecycle

def redrivenOf (db : Database) (jobID : String) : Option String :=
  (db.deadLetters.get? jobID).bind DeadLetterRow.redrivenJobID

section Links

theorem redrivenOf_insert {id : String} (habsent : db.deadLetters.get? id = none)
    (hopen : row.redrivenJobID = none) :
    redrivenOf { db with deadLetters := db.deadLetters.insert id row } = redrivenOf db := by
  funext other
  change ((db.deadLetters.insert id row).get? other).bind _ = (db.deadLetters.get? other).bind _
  rw [Table.get?_insert]
  by_cases hother : other = id
  · rw [if_pos hother, hother, habsent, Option.getD_none, Option.bind_some, hopen]
    rfl
  · rw [if_neg hother]

theorem redrivenOf_lives (now : Time) : Lives now admission (Unchanged redrivenOf) := by
  refine ⟨⟨⟨?_, ?_, ?_, fun _ _ _ => redrivenOf_insert, ?_, ?_, ?_, ?_⟩, ?_, ?_, ?_, ?_⟩, ?_, ?_⟩
  all_goals intros; rfl

theorem redrivenOf_writes (now : Time) (area : Area) :
    Writes now note (Unchanged redrivenOf) area := by
  cases area <;> dsimp only [Writes] <;> repeat' constructor
  all_goals intros; rfl

theorem redrivenOf_step (h : redrives call.op = false) :
    redrivenOf (step env store call).2.db = redrivenOf store.db :=
  have hunchanged : Unchanged redrivenOf store.db (step env store call).2.db :=
    step_relates redrivenOf_lives (fun now => redrivenOf_writes now _) fun hredrives => by
      rw [h] at hredrives
      cases hredrives
  hunchanged

theorem redrivenOf_loops (h : ∀ call, activity ≠ .call call) :
    redrivenOf (advance env store activity).db = redrivenOf store.db := by
  refine loops_kept (fun store call htriggered => redrivenOf_step ?_) h
  cases hcall : call.op <;> first | rfl | (rw [hcall] at htriggered; cases htriggered)

theorem linkRedriven_ok (h : linkRedriven jobID createdID db = .ok () db') (id : String) :
    redrivenOf db' id = if id = jobID then some createdID else redrivenOf db id := by
  obtain ⟨affected, _, hupdate, h⟩ := bind_ok h
  obtain ⟨haffected, rfl⟩ := require_ok h
  rcases update_ok hupdate with ⟨_, row, hrow, _, rfl⟩ | ⟨hfailed, _⟩
  · change ((db.deadLetters.modify jobID _).get? id).bind _ = _
    rw [Table.get?_modify]
    by_cases hid : id = jobID
    · rw [if_pos hid, if_pos hid, show db.deadLetters.get? jobID = some row from hrow]
      rfl
    · rw [if_neg hid, if_neg hid]
      rfl
  · rw [hfailed] at haffected
    cases haffected

end Links

@[ext] structure Redrive where
  jobID : String
  key : String
  digest : String
  deriving DecidableEq

def redriveOf : Op → Option Redrive
  | .redriveDeadLetterControl command _ =>
    some ⟨command.jobID, command.idempotencyKey, command.requestDigest⟩
  | .redriveDeadLetter jobID idempotencyKey requestDigest _ _ =>
    some ⟨jobID, idempotencyKey, requestDigest⟩
  | _ => none

structure Started (created : Job) (db db' : Database) : Prop where
  fresh : db.jobs.get? created.id = none
  jobs : db'.jobs = db.jobs.insert created.id (Job.toRow created)
  jobDependencies : db'.jobDependencies = db.jobDependencies
  stateVersion : created.stateVersion = 1
  attemptNo : created.attemptNo = 0

structure Made (jobID : String) (created : Job) (db db' : Database) : Prop
    extends Started created db db' where
  unlinked : redrivenOf db jobID = none
  linked : ∀ id, redrivenOf db' id = if id = jobID then some created.id else redrivenOf db id

theorem cloneJob_started (h : cloneJob options original entropy now db = .ok created db') :
    Started created db db' := by
  obtain ⟨_, db1, hadmission, h⟩ := bind_ok h
  obtain ⟨_, db2, hqueue, h⟩ := bind_ok h
  obtain ⟨tenants, slots, hyard2, _⟩ := prepare_ok anyPolicy hadmission hqueue
  obtain ⟨seq, db3, hseq, h⟩ := bind_ok h
  obtain ⟨_, hyard3⟩ := nextReadySeq_ok hseq
  obtain ⟨_, db4, hinsert, h⟩ := bind_ok h
  obtain ⟨_, hfresh, hyard4⟩ := insertJob_ok hinsert
  obtain ⟨_, db5, hevent, h⟩ := bind_ok h
  have hyard5 := addEvent_ok hevent
  obtain ⟨rfl, rfl⟩ := pure_ok h
  rw [hyard3, hyard2] at hfresh hyard4
  rw [hyard4] at hyard5
  exact ⟨hfresh, congrArg Yard.jobs hyard5, congrArg Yard.edges hyard5, rfl, rfl⟩

def estate (db : Database) :
    (String → Option String) × Table String JobRow × Table (String × String) Unit :=
  (redrivenOf db, db.jobs, db.jobDependencies)

theorem estate_audited (now : Time) (note : StorageClass) : Audited now note (Unchanged estate) :=
  ⟨⟨fun _ _ _ _ _ => rfl, fun _ _ _ _ _ => rfl⟩, fun _ _ _ => rfl, fun _ _ _ => rfl⟩

theorem made_of_clone (hletter : db.deadLetters.get? jobID = some letter)
    (hopen : letter.redrivenJobID.isNone = true)
    (hclone : cloneJob options original entropy now db = .ok created cloned)
    (hbefore : estate unlinked = estate cloned)
    (hlink : linkRedriven jobID created.id unlinked = .ok () linked)
    (hafter : estate db' = estate linked) : Made jobID created db db' := by
  have hstarted := cloneJob_started hclone
  have hkept : redrivenOf cloned = redrivenOf db :=
    Preserves.ok ((redrivenOf_lives now).cloneJob _ _ _) hclone
  unfold estate at hbefore hafter
  rw [Prod.mk.injEq, Prod.mk.injEq] at hbefore hafter
  obtain ⟨hlinks, hjobs, hdependencies⟩ := hbefore
  obtain ⟨hlinks', hjobs', hdependencies'⟩ := hafter
  have hyard := yard_linkRedriven hlink
  have hjobs1 : linked.jobs = unlinked.jobs := congrArg Yard.jobs hyard
  have hdependencies1 : linked.jobDependencies = unlinked.jobDependencies :=
    congrArg Yard.edges hyard
  refine { hstarted with jobs := ?jobs, jobDependencies := ?edges, unlinked := ?unlinked, linked := ?linked }
  case jobs => rw [hjobs', hjobs1, hjobs, hstarted.jobs]
  case edges => rw [hdependencies', hdependencies1, hdependencies, hstarted.jobDependencies]
  case unlinked =>
    unfold redrivenOf
    rw [hletter, Option.bind_some]
    exact Option.isNone_iff_eq_none.mp hopen
  case linked =>
    intro id
    rw [hlinks', linkRedriven_ok hlink, hlinks, hkept]

theorem redriveDeadLetterControl_made {command : OperatorCommand}
    (hjob : db.jobs.get? command.jobID = some job)
    (habsent : db.operationRequests.get? (job.tenantID, redriveAction, command.idempotencyKey) =
      none) (h : redriveDeadLetterControl sha256 options command entropy now db = .ok result db') :
    result.2 = false ∧ Made command.jobID result.1 db db' := by
  obtain ⟨letter, hletter, h⟩ := found_bind h rfl
  replace h := select_bind hjob h
  replace h := readControlAction_fresh habsent h
  obtain ⟨hopen, h⟩ := require_bind h
  obtain ⟨created, _, hclone, h⟩ := bind_ok h
  obtain ⟨_, _, hlink, h⟩ := bind_ok h
  obtain ⟨_, _, hevent, h⟩ := bind_ok h
  obtain ⟨_, rfl, hinsert⟩ := bind_pure_ok h
  have hevent := Preserves.ok ((estate_audited now .text).events.addEvent rfl _ _ _ _) hevent
  have hinsert :=
    Preserves.ok (relates_insertControlAction (estate_audited now .text).toFiled _ rfl) hinsert
  exact ⟨rfl, made_of_clone hletter hopen hclone rfl hlink (hinsert.trans hevent)⟩

theorem redriveDeadLetter_made (hjob : db.jobs.get? jobID = some job)
    (habsent : db.operationRequests.get? (job.tenantID, redriveAction, key) = none)
    (h : redriveDeadLetter sha256 options jobID key digest contextActor entropy now db =
      .ok result db') : result.2 = false ∧ Made jobID result.1 db db' := by
  replace h := select_bind hjob h
  obtain ⟨letter, hletter, h⟩ := found_bind h rfl
  replace h := readControlAction_fresh habsent h
  obtain ⟨hopen, h⟩ := require_bind h
  obtain ⟨created, _, hclone, h⟩ := bind_ok h
  obtain ⟨_, _, hadmission, h⟩ := bind_ok h
  obtain ⟨_, _, hlink, h⟩ := bind_ok h
  obtain ⟨_, _, hevent, h⟩ := bind_ok h
  obtain ⟨_, _, hnormalize, h⟩ := bind_ok h
  obtain ⟨_, rfl, hinsert⟩ := bind_pure_ok h
  have hadmission :=
    Preserves.ok (relates_attributeAdmission (estate_audited now .blob).events.reworded _ _) hadmission
  have hevent := Preserves.ok ((estate_audited now .blob).events.addEvent rfl _ _ _ _) hevent
  have hnormalize :=
    Preserves.ok (relates_normalizePayloads (estate_audited now .blob).events.reworded _) hnormalize
  have hinsert :=
    Preserves.ok (relates_insertControlAction (estate_audited now .blob).toFiled _ rfl) hinsert
  exact ⟨rfl, made_of_clone hletter hopen hclone hadmission hlink
    ((hinsert.trans hnormalize).trans hevent)⟩

theorem redrive_made {command : Command} (hrequest : redriveOf op = some request)
    (hcommand : commandOf db op = some command)
    (habsent : db.operationRequests.get? command.scope = none)
    (h : op.program env options now db = .ok reply db') :
    ∃ created, reply = .job created false ∧ Made request.jobID created db db' := by
  cases op
  all_goals try cases hrequest
  all_goals
    obtain ⟨_, job, _, hjob, rfl⟩ := onDeadLetter_eq_some hcommand
    obtain ⟨⟨created, duplicate⟩, rfl, hrun⟩ := bind_pure_ok h
  case redriveDeadLetterControl =>
    obtain ⟨rfl, hmade⟩ := redriveDeadLetterControl_made hjob habsent hrun
    exact ⟨created, rfl, hmade⟩
  case redriveDeadLetter =>
    obtain ⟨rfl, hmade⟩ := redriveDeadLetter_made hjob habsent hrun
    exact ⟨created, rfl, hmade⟩

end RailYard.Refinement
