import RailYard.Refinement.Requests
import RailYard.Refinement.Availability

/-! Which job stands behind an idempotency key. The answer that a key holds for a
job names a job of the store, and no two keys name the same one. -/
namespace RailYard.Refinement
open Library Library.Transaction Domain Store

def answeredJob : IdempotencyRow → Option String
  | ⟨.job, _, _, .job job, _⟩ => some job.id
  | _ => none

def registered (db : Database) (key : String × String) : Option String :=
  (db.idempotencyRequests.get? key).bind answeredJob

structure Registry (db : Database) : Prop where
  shape : ∀ key row, db.idempotencyRequests.get? key = some row → row.requestKind = .job →
    ∃ job, row.response = .job job
  exists_job : ∀ key id, registered db key = some id → (db.jobs.get? id).isSome
  injective : ∀ key key' id, registered db key = some id → registered db key' = some id → key = key'

theorem registered_kept (h : Kept db db') {id : String} (hid : registered db key = some id) :
    registered db' key = some id := by
  obtain ⟨row, hrow, hanswer⟩ := Option.bind_eq_some_iff.mp hid
  exact Option.bind_eq_some_iff.mpr ⟨row, h key row hrow, hanswer⟩

theorem Registry.same (h : Registry db) (heq : db'.idempotencyRequests = db.idempotencyRequests)
    (hjobs : JobsKept db db') : Registry db' := by
  have hregistered : registered db' = registered db := by
    unfold registered
    rw [heq]
  refine ⟨?_, ?_, ?_⟩
  · rw [heq]
    exact h.shape
  · rw [hregistered]
    exact fun key id hid => hjobs id (h.exists_job key id hid)
  · rw [hregistered]
    exact h.injective

theorem Registry.insert (h : Registry db) (habsent : db.idempotencyRequests.get? key = none)
    (hinsert : db'.idempotencyRequests = db.idempotencyRequests.insert key row)
    (hjobs : JobsKept db db') (hrow : row.requestKind = .job → ∃ job, row.response = .job job ∧
      db.jobs.get? job.id = none ∧ (db'.jobs.get? job.id).isSome) : Registry db' := by
  have hself : registered db' key = answeredJob row := by
    unfold registered
    rw [hinsert, Table.get?_insert_self _ _ habsent]
    rfl
  have hother : ∀ other, other ≠ key → registered db' other = registered db other := by
    intro other hne
    unfold registered
    rw [hinsert, Table.get?_insert_ne _ _ hne]
  have hnew : ∀ id, answeredJob row = some id →
      db.jobs.get? id = none ∧ (db'.jobs.get? id).isSome := by
    obtain ⟨kind, digest, name, response, time⟩ := row
    intro id hanswer
    cases kind with
    | job =>
      obtain ⟨job, rfl, hfresh, hexists⟩ := hrow rfl
      cases hanswer
      exact ⟨hfresh, hexists⟩
    | _ => cases hanswer
  have hold : ∀ other id, other ≠ key → registered db' other = some id →
      answeredJob row ≠ some id := by
    intro other id hne hid hanswer
    rw [hother other hne] at hid
    have hexists := h.exists_job other id hid
    rw [(hnew id hanswer).1] at hexists
    cases hexists
  refine ⟨?_, ?_, ?_⟩
  · intro other found hfound hkind
    rw [hinsert, Table.get?_insert] at hfound
    split at hfound
    · rw [habsent] at hfound
      cases hfound
      obtain ⟨job, hresponse, _⟩ := hrow hkind
      exact ⟨job, hresponse⟩
    · exact h.shape other found hfound hkind
  · intro other id hid
    by_cases hkey : other = key
    · rw [hkey, hself] at hid
      exact (hnew id hid).2
    · rw [hother other hkey] at hid
      exact hjobs id (h.exists_job other id hid)
  · intro first second id hfirst hsecond
    by_cases hkey : first = key <;> by_cases hkey' : second = key
    · rw [hkey, hkey']
    · rw [hkey, hself] at hfirst
      exact (hold second id hkey' hsecond hfirst).elim
    · rw [hkey', hself] at hsecond
      exact (hold first id hkey hfirst hsecond).elim
    · rw [hother first hkey] at hfirst
      rw [hother second hkey'] at hsecond
      exact h.injective first second id hfirst hsecond

theorem registry_empty : Registry .empty where
  shape _ _ hrow := nomatch hrow
  exists_job _ _ hid := nomatch hid
  injective _ _ _ hid := nomatch hid

theorem Registry.program (h : Registry db) (hrequest : requestOf op = some request)
    (hrun : op.program env options now db = .ok reply db') : Registry db' := by
  have hjobs : JobsKept db db' :=
    (program_relates (jobsKept_lives now) (jobsKept_writes now _) fun _ => jobsKept_links).ok hrun
  cases hrow : db.idempotencyRequests.get? (request.tenantID, request.key) with
  | some row =>
    rw [program_found hrequest hrow] at hrun
    cases hanswer : answer env options op request row with
    | error error =>
      rw [hanswer] at hrun
      cases hrun
    | ok found =>
      rw [hanswer] at hrun
      cases hrun
      exact h
  | none =>
    cases op with
    | submitJob submission entropy =>
      cases hrequest
      obtain ⟨⟨job, duplicate⟩, _, hsubmit⟩ := bind_pure_ok hrun
      obtain ⟨rfl, hinsert⟩ := submitJob_fresh hrow hsubmit
      obtain ⟨_, hfresh, hrows⟩ := submitJob_row hsubmit
      refine h.insert hrow hinsert hjobs fun _ => ⟨job, rfl, hfresh, ?_⟩
      rw [hrows, Table.get?_insert_self _ _ hfresh]
      rfl
    | submitWorkflow submission entropy =>
      cases hrequest
      obtain ⟨_, _, hsubmit⟩ := bind_pure_ok hrun
      exact h.insert hrow (submitWorkflow_fresh hrow hsubmit) hjobs fun hkind => nomatch hkind
    | createCronTrigger submission entropy =>
      cases hrequest
      obtain ⟨_, _, hcreate⟩ := bind_pure_ok hrun
      exact h.insert hrow (createCronTrigger_fresh hrow hcreate) hjobs fun hkind => nomatch hkind
    | _ => cases hrequest

theorem Registry.step (h : Registry store.db) (env : Env) (call : Call) :
    Registry (step env store call).2.db := by
  cases hrequest : requestOf call.op with
  | none =>
    exact h.same (step_preserves aloof_idempotencyRequests (outside_idempotencyRequests hrequest))
      (jobsKept_step env store call)
  | some request =>
    rcases step_cases env store call with hsame | ⟨now, reply, _, _, hrun⟩
    · rw [hsame]
      exact h
    · exact h.program hrequest hrun

def submissionKey (submission : Submission) : String × String :=
  (submission.job.normalize.tenantID, submission.idempotencyKey)

/-- What a successful submission returns: the job its key stands for, which is a
new one exactly if the key was free. -/
structure Submitted (submission : Submission) (db db' : Database) (jobID : String)
    (duplicate : Bool) : Prop where
  registered : registered db' (submissionKey submission) = some jobID
  fresh : duplicate = false → db.idempotencyRequests.get? (submissionKey submission) = none ∧
    db.jobs.get? jobID = none ∧ ∃ row, db'.jobs = db.jobs.insert jobID row
  again : duplicate = true → db' = db

theorem Submitted.unique (h : Submitted submission db db' jobID duplicate)
    (hearlier : Refinement.registered db (submissionKey submission) = some earlier) :
    jobID = earlier ∧ duplicate = true := by
  cases duplicate with
  | true =>
    have hsame := h.registered
    rw [h.again rfl, hearlier] at hsame
    exact ⟨(Option.some.inj hsame).symm, rfl⟩
  | false =>
    unfold Refinement.registered at hearlier
    rw [(h.fresh rfl).1] at hearlier
    cases hearlier

theorem submitJob_submitted (registry : Registry db)
    (h : submitJob options submission entropy now db = .ok (job, duplicate) db') :
    Submitted submission db db' job.id duplicate := by
  cases hrow : db.idempotencyRequests.get? (submissionKey submission) with
  | none =>
    obtain ⟨rfl, hinsert⟩ := submitJob_fresh hrow h
    obtain ⟨_, hfresh, hrows⟩ := submitJob_row h
    refine ⟨?_, fun _ => ⟨hrow, hfresh, _, hrows⟩, fun hfalse => nomatch hfalse⟩
    unfold Refinement.registered
    rw [hinsert]
    change ((db.idempotencyRequests.insert (submissionKey submission) _).get? _).bind _ = _
    rw [Table.get?_insert_self _ _ hrow]
    rfl
  | some row =>
    rw [submitJob_found hrow] at h
    cases hanswer : recollect submission.idempotencyKey submission.requestDigest .job row
      (row.response.toJob, true) with
    | error error =>
      rw [hanswer] at h
      cases h
    | ok found =>
      rw [hanswer] at h
      cases h
      obtain ⟨hkind, _, heq⟩ := recollect_ok hanswer
      cases heq
      obtain ⟨answered, hresponse⟩ := registry.shape _ row hrow hkind
      refine ⟨?_, Bool.noConfusion, fun _ => rfl⟩
      unfold Refinement.registered
      rw [hrow]
      obtain ⟨kind, digest, name, response, time⟩ := row
      obtain rfl : kind = .job := hkind
      obtain rfl : response = .job answered := hresponse
      rfl

section Transactions

variable {store store' : StoreState}

theorem perform_submitJob (env : Env)
    (h : store.perform reading (submitJob store.options submission entropy) = (result, store')) :
    store' = (step env store ⟨.submitJob submission entropy, reading⟩).2 := by
  have hstep := perform_bind_pure store reading (submitJob store.options submission entropy)
    fun result => Reply.job result.1 result.2
  rw [h] at hstep
  exact hstep.symm

theorem transact_error {α : Type} {program : Tx α} {error : Error}
    (h : store.transact program = (.error error, store')) :
    (∀ value db, program store.db ≠ .ok value db) ∧ store' = store := by
  unfold StoreState.transact commit at h
  dsimp only at h
  split at h <;> rename_i hrun
  · cases h
  · cases h
    refine ⟨?_, rfl⟩
    rw [hrun]
    intro value db hok
    cases hok

theorem transact_ok {α : Type} {program : Tx α} {value : α}
    (h : store.transact program = (.ok value, store')) :
    program store.db = .ok value store'.db ∧ store' = { store with db := store'.db } := by
  unfold StoreState.transact at h
  rcases commit_cases program store.db with ⟨value, db', hrun, hcommit⟩ | ⟨_, hcommit⟩
  · dsimp only at h
    rw [hcommit] at h
    cases h
    exact ⟨hrun, rfl⟩
  · dsimp only at h
    rw [hcommit] at h
    cases h

theorem perform_error {α : Type} {reading : Reading} {program : Time → Tx α} {error : Error}
    (h : store.perform reading program = (.error error, store')) : store'.db = store.db := by
  unfold StoreState.perform at h
  rcases commit_cases (program (store.clock.writeTime reading)) store.db with
    ⟨value, db', _, hcommit⟩ | ⟨_, hcommit⟩
  · dsimp only at h
    rw [hcommit] at h
    cases h
  · dsimp only at h
    rw [hcommit] at h
    cases h
    rfl

theorem perform_ok {α : Type} {reading : Reading} {program : Time → Tx α} {value : α}
    (h : (store.perform reading program).1 = .ok value) :
    ∃ db', program (store.clock.writeTime reading) store.db = .ok value db' := commit_ok h

theorem perform_run {α : Type} {reading : Reading} {program : Time → Tx α} {value : α}
    (h : program (store.clock.writeTime reading) store.db = .ok value db') :
    store.perform reading program =
      (.ok value, { store with db := db', clock := store.clock.tick reading }) := by
  unfold StoreState.perform
  dsimp only
  rw [commit_ok_iff.mpr h]

theorem transact_run {α : Type} {program : Tx α} {value : α}
    (h : program store.db = .ok value db') :
    store.transact program = (.ok value, { store with db := db' }) := by
  unfold StoreState.transact
  dsimp only
  rw [commit_ok_iff.mpr h]

end Transactions

theorem perform_submitted {store store' : StoreState} {job : Job} (registry : Registry store.db)
    (h : store.perform reading (submitJob store.options submission entropy) =
      (.ok (job, duplicate), store')) :
    Submitted submission store.db store'.db job.id duplicate := by
  unfold StoreState.perform at h
  rcases commit_cases (submitJob store.options submission entropy (store.clock.writeTime reading))
    store.db with ⟨result, db', hrun, hcommit⟩ | ⟨error, hcommit⟩
  · dsimp only at h
    rw [hcommit] at h
    cases h
    exact submitJob_submitted registry hrun
  · dsimp only at h
    rw [hcommit] at h
    cases h

theorem registry_calls (env : Env) (h : Registry store.db) (calls : List Call) :
    Registry (runCalls env store calls).db := by
  induction calls generalizing store with
  | nil => exact h
  | cons call rest ih => exact ih (h.step env call)

theorem Registry.run (h : Registry store.db) (env : Env) (activities : List Activity) :
    Registry (run env store activities).db := by
  obtain ⟨calls, heq⟩ := exists_calls env store activities
  rw [heq]
  exact registry_calls env h calls

end RailYard.Refinement
