import RailYard.Refinement.Redrives
import RailYard.Properties.Operators
import RailYard.Properties.Reserve

/-! Dead letters are redriven once. Two calls make a job from a dead letter, with
keys and digests of their callers; whatever mixture of them is sent, the first
that is carried out makes the only job. -/
namespace RailYard.Properties
open Library Library.Transaction Domain Store
open Refinement Lifecycle

variable {env : Env} {options : Options} {store : StoreState} {call : Call}

/-- What a request that is recorded under the name of redrives is about. -/
inductive Subject where
  | deadLetter (jobID : String)
  | note
  deriving DecidableEq

def subjectOf : Op → Option (Subject × String)
  | .redriveDeadLetterControl command _ => some (.deadLetter command.jobID, command.requestDigest)
  | .redriveDeadLetter jobID _ requestDigest _ _ => some (.deadLetter jobID, requestDigest)
  | .recordControlAction request | .recordOperatorAction request =>
    if request.action = redriveAction then some (.note, request.requestDigest) else none
  | _ => none

def Asked (ops : List Op) (subject : Subject) (digest : String) : Prop :=
  ∃ op ∈ ops, subjectOf op = some (subject, digest)

def Distinguished (ops : List Op) : Prop :=
  ∀ subject subject' digest, Asked ops subject digest → Asked ops subject' digest →
    subject = subject'

def callOf : Activity → Option Op
  | .call call => some call.op
  | _ => none

/-- A job that was made from a dead letter, and the request that made it. -/
structure Creation where
  request : Redrive
  job : Job

def creationBy (op : Op) (reply : Except Error Reply) : Option Creation :=
  match redriveOf op, reply with
  | some request, .ok (.job job false) => some ⟨request, job⟩
  | _, _ => none

def creationIn (env : Env) (store : StoreState) : Activity → Option Creation
  | .call call => creationBy call.op (step env store call).1
  | _ => none

def creations (env : Env) : StoreState → List Activity → List Creation
  | _, [] => []
  | store, activity :: rest =>
    (creationIn env store activity).toList ++ creations env (advance env store activity) rest

theorem creations_append (env : Env) (store : StoreState) (first second : List Activity) :
    creations env store (first ++ second) =
      creations env store first ++ creations env (run env store first) second := by
  induction first generalizing store with
  | nil => rfl
  | cons activity rest ih =>
    change _ ++ creations env _ (rest ++ second) = (_ ++ creations env _ rest) ++ _
    rw [ih, List.append_assoc]
    rfl

section Steps

inductive Redriven (request : Redrive) (db : Database) : Except Error Reply → Database → Prop
  | refused (error : Error) : Redriven request db (.error error) db
  | recorded {tenantID : String} {row : OperationRow}
      (found : db.operationRequests.get? (tenantID, redriveAction, request.key) = some row)
      (digest : row.requestDigest = request.digest) :
      Redriven request db (.ok (.job row.response.toJob true)) db
  | made {tenantID : String} {row : OperationRow} {created : Job} {db' : Database}
      (made : Made request.jobID created db db')
      (fresh : db.operationRequests.get? (tenantID, redriveAction, request.key) = none)
      (requests : db'.operationRequests =
        db.operationRequests.insert (tenantID, redriveAction, request.key) row)
      (digest : row.requestDigest = request.digest) (response : row.response.toJob = created) :
      Redriven request db (.ok (.job created false)) db'

theorem redrive_spec (db : Database) (h : redriveOf op = some request) :
    area op = .controls ∧ keyCheck op = .ok () ∧
      (∀ response, replayOf op response = .job response.toJob true) ∧
      subjectOf op = some (.deadLetter request.jobID, request.digest) ∧
      commandOf db op = onDeadLetter db request.jobID redriveAction request.key request.digest := by
  cases op <;> cases h <;> exact ⟨rfl, rfl, fun _ => rfl, rfl, rfl⟩

theorem redriven_step (env : Env) (store : StoreState) (hrequest : redriveOf call.op = some request)
    :
    Redriven request store.db (step env store call).1 (step env store call).2.db := by
  obtain ⟨harea, hcheck, hreplay, _, hcommand⟩ := redrive_spec store.db hrequest
  cases hfound : commandOf store.db call.op with
  | none =>
    obtain ⟨⟨error, _, hreply⟩, hsame⟩ := step_missing env harea hfound
    rw [hreply, hsame]
    exact .refused error
  | some command =>
    obtain ⟨_, job, _, _, hform⟩ := onDeadLetter_eq_some (hcommand.symm.trans hfound)
    cases hrow : store.db.operationRequests.get? command.scope with
    | some row =>
      obtain ⟨hreply, hsame⟩ := step_recorded env hfound hrow
      rw [hreply, hsame, hcheck, hreplay]
      rw [hform] at hrow ⊢
      change Redriven request _ (answerFrom row request.digest _) _
      unfold answerFrom
      split
      · exact .recorded hrow ‹_›
      · exact .refused _
    | none =>
      rw [step_of_control harea]
      unfold StoreState.perform
      dsimp only
      rcases commit_cases (call.op.program env store.options
        (store.clock.writeTime call.reading)) store.db with
        ⟨reply, db', hrun, hcommit⟩ | ⟨error, hcommit⟩
      · rw [hcommit]
        obtain ⟨created, rfl, hmade⟩ := redrive_made hrequest hfound hrow hrun
        obtain ⟨action, event, heffect⟩ := command_carried hfound hrow hrun
        have hrequests := congrArg Trail.requests heffect.carried.added
        let row := (recordingOf env.sha256 action event heffect.carried.tells).request
        have hscope := heffect.scope
        have hdigest := heffect.digest
        have hresponse := heffect.reply
        rw [hform] at hrow hscope hdigest
        rw [hreplay] at hresponse
        have hinsert : db'.operationRequests = store.db.operationRequests.insert
            (job.tenantID, redriveAction, request.key) row :=
          hrequests.trans (congrArg (store.db.operationRequests.insert · row) hscope)
        exact .made hmade hrow hinsert hdigest (Reply.job.inj hresponse).1
      · rw [hcommit]
        exact .refused error

theorem force_ne_redrive (text : String) : "job.force." ++ text ≠ redriveAction := by
  intro h
  have hchars := congrArg String.toList h
  rw [String.toList_append] at hchars
  have hfirst := congrArg List.head? hchars
  cases hfirst

theorem noted {command : Command} (hrequest : redriveOf op = none)
    (hcommand : commandOf db op = some command) (haction : command.action = redriveAction) :
    subjectOf op = some (.note, command.digest) := by
  cases op
  all_goals try cases hcommand
  all_goals try cases hrequest
  case submitJobOperation | submitDagOperation => simp [redriveAction] at haction
  case recordControlAction | recordOperatorAction => exact if_pos haction
  case cancelJob | retryJobControl =>
    obtain ⟨_, _, rfl⟩ := onJob_eq_some hcommand
    simp [redriveAction] at haction
  case forceJobAction command action =>
    obtain ⟨_, _, rfl⟩ := onJob_eq_some hcommand
    exact (force_ne_redrive action.text haction).elim

end Steps

/-- The links and the records of redrives, beside the jobs made so far. -/
structure Books (ops : List Op) (made : List Creation) (db : Database) : Prop where
  linked : ∀ id, redrivenOf db id =
    (made.find? fun creation => creation.request.jobID = id).map fun creation => creation.job.id
  sources : (made.map fun creation => creation.request.jobID).Nodup
  asked : ∀ creation ∈ made,
    Asked ops (.deadLetter creation.request.jobID) creation.request.digest
  recorded : ∀ tenantID key row,
    db.operationRequests.get? (tenantID, redriveAction, key) = some row →
    Asked ops .note row.requestDigest ∨ ∃ creation ∈ made, creation.request.key = key ∧
      creation.request.digest = row.requestDigest ∧ row.response.toJob = creation.job

namespace Books

variable {ops : List Op} {made : List Creation} {db db' : Database}

theorem same (books : Books ops made db) (hlinks : redrivenOf db' = redrivenOf db)
    (hrequests : db'.operationRequests = db.operationRequests) : Books ops made db' where
  linked := by rw [hlinks]; exact books.linked
  sources := books.sources
  asked := books.asked
  recorded := by rw [hrequests]; exact books.recorded

theorem note (books : Books ops made db) (hlinks : redrivenOf db' = redrivenOf db)
    (hrequests : db'.operationRequests = db.operationRequests.insert scope row)
    (hfresh : db.operationRequests.get? scope = none)
    (hnote : scope.2.1 = redriveAction → Asked ops .note row.requestDigest) :
    Books ops made db' where
  linked := by rw [hlinks]; exact books.linked
  sources := books.sources
  asked := books.asked
  recorded := by
    intro tenantID key found hfound
    rw [hrequests, Table.get?_insert] at hfound
    split at hfound
    · rename_i hscope
      rw [hfresh, Option.getD_none, Option.some.injEq] at hfound
      rw [← hfound]
      exact .inl (hnote (by rw [← hscope]))
    · exact books.recorded tenantID key found hfound

theorem find?_none (books : Books ops made db) (h : redrivenOf db jobID = none) :
    made.find? (fun creation => creation.request.jobID = jobID) = none :=
  Option.map_eq_none_iff.mp ((books.linked jobID).symm.trans h)

theorem add (books : Books ops made db) (hmade : Made request.jobID created db db')
    (hfresh : db.operationRequests.get? (tenantID, redriveAction, request.key) = none)
    (hrequests : db'.operationRequests =
      db.operationRequests.insert (tenantID, redriveAction, request.key) row)
    (hdigest : row.requestDigest = request.digest) (hresponse : row.response.toJob = created)
    (hasked : Asked ops (.deadLetter request.jobID) request.digest) :
    Books ops (made ++ [⟨request, created⟩]) db' where
  linked := by
    intro id
    rw [hmade.linked, List.find?_append]
    by_cases hid : id = request.jobID
    · rw [if_pos hid, hid, books.find?_none hmade.unlinked]
      simp
    · rw [if_neg hid, books.linked]
      simp [Ne.symm hid]
  sources := by
    rw [List.map_append, List.map_singleton, List.nodup_append]
    refine ⟨books.sources, List.nodup_singleton _, ?_⟩
    intro jobID hmem other hother heq
    obtain ⟨creation, hcreation, rfl⟩ := List.mem_map.mp hmem
    have hnone := List.find?_eq_none.mp (books.find?_none hmade.unlinked) creation hcreation
    exact hnone (decide_eq_true (heq.trans (List.mem_singleton.mp hother)))
  asked := by
    intro creation hcreation
    rcases List.mem_append.mp hcreation with hold | hnew
    · exact books.asked creation hold
    · rw [List.mem_singleton.mp hnew]
      exact hasked
  recorded := by
    intro tenant key found hfound
    rw [hrequests, Table.get?_insert] at hfound
    split at hfound
    · rename_i hscope
      rw [hfresh, Option.getD_none, Option.some.injEq] at hfound
      rw [Prod.mk.injEq, Prod.mk.injEq] at hscope
      rw [← hfound, hscope.2.2]
      exact .inr ⟨⟨request, created⟩, by simp, rfl, hdigest.symm, hresponse⟩
    · refine (books.recorded tenant key found hfound).imp_right ?_
      rintro ⟨creation, hcreation, hrest⟩
      exact ⟨creation, List.mem_append_left _ hcreation, hrest⟩

theorem step (books : Books ops made store.db) (hop : call.op ∈ ops) :
    Books ops (made ++ (creationBy call.op (Store.step env store call).1).toList)
      (Store.step env store call).2.db := by
  cases hrequest : redriveOf call.op with
  | none =>
    have hnone : creationBy call.op (Store.step env store call).1 = none := by
      unfold creationBy
      rw [hrequest]
    rw [hnone, Option.toList_none, List.append_nil]
    have hredrives : redrives call.op = false := by
      cases hcall : call.op <;> first | rfl | (rw [hcall] at hrequest; cases hrequest)
    have hlinks : redrivenOf (Store.step env store call).2.db = redrivenOf store.db :=
      redrivenOf_step hredrives
    rcases trail_step env store call with hsame | ⟨command, _, _, _, hcommand, _, heffect⟩
    · exact books.same hlinks (congrArg Trail.requests hsame)
    · obtain ⟨htells, hfresh, hadded⟩ := heffect.carried
      refine books.note hlinks (congrArg Trail.requests hadded) hfresh.request fun hname => ?_
      have haction : command.action = redriveAction := by
        rw [← hname]
        exact (congrArg (fun scope => scope.2.1) heffect.scope).symm
      exact ⟨call.op, hop, (noted hrequest hcommand haction).trans (by rw [← heffect.digest]; rfl)⟩
  | some request =>
    obtain ⟨_, _, _, hsubject, _⟩ := redrive_spec store.db hrequest
    have hend := redriven_step env store hrequest
    unfold creationBy
    rw [hrequest]
    generalize (Store.step env store call).1 = reply at hend ⊢
    generalize (Store.step env store call).2.db = db' at hend ⊢
    cases hend with
    | refused error => simpa using books
    | recorded found digest => simpa using books
    | made hmade hfresh hrequests hdigest hresponse =>
      exact books.add hmade hfresh hrequests hdigest hresponse ⟨call.op, hop, hsubject⟩

theorem run (books : Books ops made store.db) (hops : ∀ op ∈ activities.filterMap callOf, op ∈ ops)
    :
    Books ops (made ++ creations env store activities) (Store.run env store activities).db := by
  induction activities generalizing store made with
  | nil => exact (List.append_nil made).symm ▸ books
  | cons activity rest ih =>
    have hrest : ∀ op ∈ rest.filterMap callOf, op ∈ ops := by
      intro op hop
      apply hops
      rw [List.filterMap_cons]
      split
      · exact hop
      · exact List.mem_cons_of_mem _ hop
    have hfirst : Books ops (made ++ (creationIn env store activity).toList)
        (advance env store activity).db := by
      cases activity with
      | call call => exact books.step (hops call.op (List.mem_cons_self ..))
      | fireDueCron | deliverRedis =>
        change Books ops (made ++ []) _
        rw [List.append_nil]
        exact books.same (redrivenOf_loops fun _ h => by cases h)
          (congrArg Trail.requests (trail_loops fun _ h => by cases h))
    have hall := ih hfirst hrest
    rwa [List.append_assoc] at hall

theorem empty (ops : List Op) : Books ops [] .empty where
  linked _ := rfl
  sources := .nil
  asked _ h := nomatch h
  recorded _ _ _ h := nomatch h

theorem single (books : Books ops made db) (jobID : String) :
    (made.filter fun creation => creation.request.jobID = jobID).length ≤ 1 := by
  have hsame : ∀ source ∈ (made.filter fun creation => creation.request.jobID = jobID).map
      (fun creation => creation.request.jobID), source = jobID := by
    intro source hsource
    obtain ⟨creation, hcreation, rfl⟩ := List.mem_map.mp hsource
    exact of_decide_eq_true (List.mem_filter.mp hcreation).2
  have hnodup : ((made.filter fun creation => creation.request.jobID = jobID).map
      fun creation => creation.request.jobID).Nodup :=
    books.sources.sublist (List.filter_sublist.map _)
  rw [List.eq_replicate_of_mem hsame, List.nodup_replicate, List.length_map] at hnodup
  exact hnodup

theorem only (books : Books ops made db) (h : creation ∈ made) :
    (made.filter fun other => other.request.jobID = creation.request.jobID) = [creation] := by
  have hmem : creation ∈ made.filter fun other => other.request.jobID = creation.request.jobID :=
    List.mem_filter.mpr ⟨h, decide_eq_true rfl⟩
  obtain ⟨other, hother⟩ := List.length_eq_one_iff.mp
    (le_antisymm (books.single creation.request.jobID) (List.length_pos_of_mem hmem))
  rw [hother, List.mem_singleton] at hmem
  rw [hother, hmem]

end Books

def redrivesOf (env : Env) (options : Options) (activities : List Activity) (jobID : String) :
    List Creation :=
  (creations env (freshStore options) activities).filter
    fun creation => creation.request.jobID = jobID

/-- How a redrive of a dead letter may end after the jobs made from it. -/
inductive Outcome (request : Redrive) (made : List Creation) (db : Database) :
    Except Error Reply → Database → Prop
  | first {created : Job} {db' : Database} (none : made = [])
      (started : Started created db db')
      (parents : ∀ parent, db'.jobDependencies.get? (created.id, parent) = Option.none)
      (linked : redrivenOf db' request.jobID = some created.id) :
      Outcome request made db (.ok (.job created false)) db'
  | duplicate {creation : Creation} (only : made = [creation])
      (same : creation.request = request) :
      Outcome request made db (.ok (.job creation.job true)) db
  | refused (error : Error) : Outcome request made db (.error error) db

theorem outcome_of_redriven (graph : Graph (yardOf db)) (books : Books ops made db)
    (distinguished : Distinguished ops)
    (asked : Asked ops (.deadLetter request.jobID) request.digest)
    (h : Redriven request db reply db') :
    Outcome request (made.filter fun creation => creation.request.jobID = request.jobID) db
      reply db' := by
  cases h with
  | refused error => exact .refused error
  | recorded found digest =>
    rcases books.recorded _ _ _ found with hnote | ⟨creation, hcreation, hkey, hdigest, hjob⟩
    · rw [digest] at hnote
      cases distinguished _ _ _ hnote asked
    · have hcreated := books.asked creation hcreation
      rw [hdigest, digest] at hcreated
      have hsource : creation.request.jobID = request.jobID :=
        Subject.deadLetter.inj (distinguished _ _ _ hcreated asked)
      have honly := books.only hcreation
      rw [hsource] at honly
      rw [hjob]
      exact .duplicate honly (Redrive.ext hsource hkey (hdigest.trans digest))
  | @made _ _ created _ hmade hfresh hrequests hdigest hresponse =>
    have hnone := books.find?_none hmade.unlinked
    refine .first (List.filter_eq_nil_iff.mpr (List.find?_eq_none.mp hnone)) hmade.toStarted ?_ ?_
    · intro parent
      rw [hmade.jobDependencies, ← Table.not_mem_keys_iff]
      intro hedge
      obtain ⟨row, _, hrow, _⟩ := graph.ends created.id parent hedge
      cases hmade.fresh.symm.trans hrow
    · rw [hmade.linked, if_pos rfl]

theorem books_run (env : Env) (options : Options) (activities : List Activity)
    (h : ∀ op ∈ activities.filterMap callOf, op ∈ ops) :
    Books ops (creations env (freshStore options) activities)
      (run env (freshStore options) activities).db := by
  have hempty : Books ops [] (freshStore options).db := .empty ops
  have hrun : Books ops ([] ++ creations env (freshStore options) activities)
    (run env (freshStore options) activities).db := hempty.run h
  exact hrun

theorem redrivenOf_run (env : Env) (options : Options) (before after : List Activity)
    (h : redrivenOf (run env (freshStore options) before).db jobID = some createdID) :
    redrivenOf (run env (freshStore options) (before ++ after)).db jobID = some createdID := by
  have hbefore := books_run env options before fun _ hop => hop
  have hafter := books_run env options (before ++ after) fun _ hop => hop
  rw [hbefore.linked, Option.map_eq_some_iff] at h
  obtain ⟨creation, hfound, hid⟩ := h
  rw [hafter.linked, creations_append, List.find?_append, hfound]
  exact congrArg some hid

theorem deadLetter_run (env : Env) (options : Options) (before after : List Activity)
    (h : ((run env (freshStore options) before).db.deadLetters.get? jobID).isSome = true) :
    ∃ row, (run env (freshStore options) before).db.jobs.get? jobID = some row ∧
      row.state = .deadLetter ∧
      (run env (freshStore options) (before ++ after)).db.jobs.get? jobID = some row := by
  have hsound := sound_run env options before
  cases hrow : (run env (freshStore options) before).db.jobs.get? jobID with
  | none =>
    have habsent : ((run env (freshStore options) before).db.deadLetters.get? jobID).isSome =
        false := (hsound.ledger.absent jobID hrow).2
    rw [habsent] at h
    cases h
  | some row =>
    have hstate := (hsound.ledger.accounted jobID row hrow).deadLetter.mp h
    exact ⟨row, rfl, hstate, (evolves_run env options before after).terminal hrow
      (deadLetter_terminal hstate)⟩

/-- What is true of the dead letter that a call names, in the state after some
activities and of the call there. -/
structure RedrivenOnce (env : Env) (options : Options) (activities : List Activity)
    (request : Redrive) (call : Call) : Prop where
  single : (redrivesOf env options activities request.jobID).length ≤ 1
  linked : redrivenOf (run env (freshStore options) activities).db request.jobID =
    (redrivesOf env options activities request.jobID).head?.map fun creation => creation.job.id
  kept : ∀ before after createdID, activities = before ++ after →
    redrivenOf (run env (freshStore options) before).db request.jobID = some createdID →
    redrivenOf (run env (freshStore options) activities).db request.jobID = some createdID
  source : ∀ before after, activities ++ [.call call] = before ++ after →
    ((run env (freshStore options) before).db.deadLetters.get? request.jobID).isSome = true →
    ∃ row, (run env (freshStore options) before).db.jobs.get? request.jobID = some row ∧
      row.state = .deadLetter ∧
      (run env (freshStore options) (activities ++ [.call call])).db.jobs.get? request.jobID =
        some row
  outcome : Outcome request (redrivesOf env options activities request.jobID)
    (run env (freshStore options) activities).db
    (step env (run env (freshStore options) activities) call).1
    (step env (run env (freshStore options) activities) call).2.db

/-- If requests about different subjects have different digests, then in every
reachable state a dead letter has been redriven at most once, its link names the
job made from it and never changes, its own job stays as it is, and a redrive is
the first, a repetition of the one that was carried out, or refused without any
change. -/
theorem redriven_once (env : Env) (options : Options) (activities : List Activity) (call : Call)
    (request : Redrive) (hrequest : redriveOf call.op = some request)
    (distinguished : Distinguished (call.op :: activities.filterMap callOf)) :
    RedrivenOnce env options activities request call := by
  have books := books_run env options activities fun op hop => List.mem_cons_of_mem call.op hop
  constructor
  case single => exact books.single request.jobID
  case linked =>
    unfold redrivesOf
    rw [List.head?_filter]
    exact books.linked request.jobID
  case kept =>
    rintro before after createdID rfl hlinked
    exact redrivenOf_run env options before after hlinked
  case source =>
    intro before after heq hdead
    rw [heq]
    exact deadLetter_run env options before after hdead
  case outcome =>
    obtain ⟨_, _, _, hsubject, _⟩ := redrive_spec .empty hrequest
    exact outcome_of_redriven (sound_run env options activities).graph books distinguished
      ⟨call.op, List.mem_cons_self .., hsubject⟩ (redriven_step env _ hrequest)

def deadLetterPlain (byte : UInt8) : Activity :=
  .call ⟨.forceJobAction {
    jobID := newID (entropyOf byte)
    actor := "operator"
    idempotencyKey := "give up"
    requestDigest := "digest" } .deadLetter, ⟨1, 0⟩⟩

def redriveControlPlain : Call :=
  ⟨.redriveDeadLetterControl {
    jobID := newID (entropyOf 1)
    actor := "operator"
    idempotencyKey := "redrive"
    requestDigest := "redrive digest" } (entropyOf 2), ⟨1, 0⟩⟩

def redrivePlain : Call :=
  ⟨.redriveDeadLetter (newID (entropyOf 1)) "redrive" "redrive digest" "api" (entropyOf 3), ⟨1, 0⟩⟩

theorem redriven_twice :
    let activities := [plainJob 1 [], deadLetterPlain 1, .call redriveControlPlain]
    (redrivesOf lengthEnv defaultOptions activities (newID (entropyOf 1))).length = 1 ∧
      RedrivenOnce lengthEnv defaultOptions activities
        ⟨newID (entropyOf 1), "redrive", "redrive digest"⟩ redrivePlain := by
  refine ⟨by decide +kernel, redriven_once lengthEnv defaultOptions _ redrivePlain _ rfl ?_⟩
  have hsubject : ∀ subject digest, Asked (redrivePlain.op :: [plainJob 1 [], deadLetterPlain 1,
      .call redriveControlPlain].filterMap callOf) subject digest →
      subject = .deadLetter (newID (entropyOf 1)) := by
    rintro subject digest ⟨op, hop, hsubject⟩
    simp only [plainJob, deadLetterPlain, callOf, List.filterMap_cons, List.filterMap_nil,
      List.mem_cons, List.not_mem_nil, or_false] at hop
    rcases hop with rfl | rfl | rfl | rfl <;> cases hsubject <;> rfl
  intro subject subject' digest hasked hasked'
  rw [hsubject subject digest hasked, hsubject subject' digest hasked']

end RailYard.Properties
