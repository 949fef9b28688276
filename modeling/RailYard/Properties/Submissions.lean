import RailYard.Refinement.Requests
import RailYard.Properties.Dependencies

/-! Submissions are idempotent at any later time, as far as they come to the
look-up of their key: a call without a digest is refused before, and so is a
cron trigger that fails the checks of the day. -/
namespace RailYard.Properties
open Library.Transaction Domain Store
open Refinement

variable {env : Env} {options : Options} {now : Time} {db db' : Database}

def Acceptable (env : Env) (options : Options) : Op → Prop
  | .createCronTrigger submission _ =>
    (cronJob submission).validate options.maxSlotCost options.allowShell = .ok () ∧
      (env.parseCron submission.expression).isSome = true
  | _ => True

theorem precheck_ok_iff (op : Op) : precheck env options op = .ok () ↔ Acceptable env options op := by
  cases op
  case createCronTrigger submission entropy =>
    simp only [precheck, Acceptable, Env.schedule]
    cases (cronJob submission).validate options.maxSlotCost options.allowShell with
    | error error => simp [bind, Except.bind]
    | ok _ => cases env.parseCron submission.expression <;> simp [bind, Except.bind, pure, Except.pure]
  all_goals simp [precheck, Acceptable]

theorem validateIdempotency_ok_iff (key digest : String) :
    validateIdempotency key digest = .ok () ↔ blank key = false ∧ blank digest = false := by
  unfold validateIdempotency
  cases blank key <;> cases blank digest <;> simp

theorem program_valid (hrequest : requestOf op = some request)
    (h : op.program env options now db = .ok reply db') :
    validateIdempotency request.key request.digest = .ok () := by
  cases op <;> cases hrequest
  case submitJob submission entropy =>
    obtain ⟨_, _, h⟩ := bind_pure_ok h
    obtain ⟨_, _, hlift, _⟩ := bind_ok h
    exact (lift_ok hlift).1
  case submitWorkflow submission entropy =>
    obtain ⟨_, _, h⟩ := bind_pure_ok h
    obtain ⟨_, _, hlift, _⟩ := bind_ok h
    exact (lift_ok hlift).1
  case createCronTrigger submission entropy =>
    obtain ⟨_, _, h⟩ := bind_pure_ok h
    obtain ⟨_, _, _, h⟩ := bind_ok h
    obtain ⟨_, _, _, h⟩ := bind_ok h
    obtain ⟨_, _, hlift, _⟩ := bind_ok h
    exact (lift_ok hlift).1

theorem step_of_request (h : requestOf call.op = some request) : step env store call =
      store.perform call.reading fun now => call.op.program env store.options now := by
  obtain ⟨op, reading⟩ := call
  cases op <;> first | rfl | cases h

theorem answers_step (hrequest : requestOf call.op = some request)
    (hreply : (step env store call).1 = .ok reply) :
    validateIdempotency request.key request.digest = .ok () ∧
      ∃ row, (step env store call).2.db.idempotencyRequests.get?
        (request.tenantID, request.key) = some row ∧ Answers request reply row := by
  rw [step_of_request hrequest] at hreply ⊢
  unfold StoreState.perform at hreply ⊢
  dsimp only at hreply ⊢
  unfold commit at hreply ⊢
  cases hrun : call.op.program env store.options (store.clock.writeTime call.reading) store.db with
  | error error db' =>
    rw [hrun] at hreply
    cases hreply
  | ok value db' =>
    rw [hrun] at hreply
    cases hreply
    exact ⟨program_valid hrequest hrun, program_answers hrequest hrun⟩

theorem step_found (env : Env) (hrequest : requestOf call.op = some request)
    (hrow : store.db.idempotencyRequests.get? (request.tenantID, request.key) = some row) :
    (step env store call).1 = answer env store.options call.op request row ∧
      (step env store call).2.db = store.db := by
  rw [step_of_request hrequest]
  unfold StoreState.perform
  dsimp only
  rw [commit_settled (program_found hrequest hrow)]
  exact ⟨rfl, rfl⟩

theorem answer_of_acceptable (hacceptable : Acceptable env options op)
    (hvalid : validateIdempotency request.key request.digest = .ok ()) :
    answer env options op request row =
      if row.requestKind = request.kind ∧ row.requestDigest = request.digest then
        .ok (replay request.kind row.response)
      else .error .idempotencyConflict := by
  unfold answer recollect
  rw [(precheck_ok_iff op).mpr hacceptable, hvalid]
  rfl

/-- For every run, once a submission has succeeded, every later call under its
tenant and key changes no table and creates nothing; the same request gets the
first answer as a duplicate, another one a conflict, and one without a digest
is refused as such. -/
theorem submission_idempotency (env : Env) (options : Options) (before later : List Activity)
    (first again : Call) (request request' : Request) (reply : Reply)
    (hfirst : requestOf first.op = some request)
    (hreply : (step env (run env (freshStore options) before) first).1 = .ok reply)
    (hagain : requestOf again.op = some request')
    (hkey : request'.tenantID = request.tenantID ∧ request'.key = request.key) :
    let store := run env (freshStore options) (before ++ .call first :: later)
    (step env store again).2.db = store.db ∧
      (∀ reply', (step env store again).1 = .ok reply' → reply' = repeated reply) ∧
      (request' = request → Acceptable env store.options again.op →
        (step env store again).1 = .ok (repeated reply)) ∧
      (request' ≠ request → blank request'.digest = false →
        Acceptable env store.options again.op →
        (step env store again).1 = .error .idempotencyConflict) ∧
      (blank request'.digest = true → Acceptable env store.options again.op →
        (step env store again).1 = .error (.text "request digest must not be empty")) := by
  intro store
  obtain ⟨hvalid, row, hrow, hanswers⟩ := answers_step hfirst hreply
  have hstore : store = run env (step env (run env (freshStore options) before) first).2 later :=
    run_append ..
  have hkept : store.db.idempotencyRequests.get? (request'.tenantID, request'.key) = some row := by
    rw [hkey.1, hkey.2, hstore]
    exact run_related Kept (fun _ _ _ hrow => hrow)
      (fun h h' key row hrow => h' key row (h key row hrow)) (kept_step env) _ later _ row hrow
  obtain ⟨hanswer, hsame⟩ := step_found env hagain hkept
  have hmatches : row.requestKind = request'.kind ∧ row.requestDigest = request'.digest ↔
      request' = request := by
    rw [hanswers.kind, hanswers.digest]
    obtain ⟨tenantID, key, kind, digest⟩ := request
    obtain ⟨tenantID', key', kind', digest'⟩ := request'
    simp only at hkey ⊢
    simp [hkey.1, hkey.2, eq_comm]
  have hnamed : blank request.key = false := ((validateIdempotency_ok_iff _ _).mp hvalid).1
  have hblank : validateIdempotency request'.key request'.digest = .ok () ↔
      blank request'.digest = false := by
    rw [validateIdempotency_ok_iff, hkey.2]
    simp [hnamed]
  rw [hanswer]
  refine ⟨hsame, ?_, ?_, ?_, ?_⟩
  · intro reply' hok
    obtain ⟨_, hreplay, hsame'⟩ := answer_ok hok
    obtain rfl : request' = request := hmatches.mp ⟨hsame'.kind, hsame'.digest⟩
    rw [hreplay, hanswers.reply]
  · intro heq hacceptable
    rw [answer_of_acceptable hacceptable (by rwa [heq]), if_pos (hmatches.mpr heq), heq,
      hanswers.reply]
  · intro hother hdigest hacceptable
    rw [answer_of_acceptable hacceptable (hblank.mpr hdigest), if_neg (mt hmatches.mp hother)]
  · intro hdigest hacceptable
    have hrefused : validateIdempotency request'.key request'.digest =
        .error (.text "request digest must not be empty") := by
      simp [validateIdempotency, hkey.2, hnamed, hdigest]
    unfold answer recollect
    rw [(precheck_ok_iff _).mpr hacceptable, hrefused]
    rfl

def midnightAfter (now : Time) : Time := (now / 86400000000000 + 1) * 86400000000000

/-- The parser as it is on `@daily`, in UTC; no other expression is accepted. -/
def parseDaily (expression : String) : Option (Time → Time) :=
  if expression = "@daily" then some midnightAfter else none

theorem parseDaily_some (h : parseDaily expression = some next) : next = midnightAfter := by
  unfold parseDaily at h
  split at h
  · cases h
    rfl
  · cases h

def cronEnv : Env := { plainEnv with parseCron := parseDaily }

def nightly (digest : String) : Call :=
  ⟨.createCronTrigger {
    expression := "@daily"
    job := { payload := { type := .noop }, slotCost := 2 }
    actor := "api"
    idempotencyKey := "nightly"
    requestDigest := digest } (entropyOf 1), ⟨1, 0⟩⟩

theorem submission_idempotency_nightly :
    ∃ reply, (step cronEnv (run cronEnv (freshStore defaultOptions) []) (nightly "digest")).1 =
        .ok reply ∧
      (step cronEnv (run cronEnv (freshStore defaultOptions) [.call (nightly "digest")])
        (nightly "digest")).1 = .ok (repeated reply) := by
  obtain ⟨reply, hreply⟩ : ∃ reply, (step cronEnv (run cronEnv (freshStore defaultOptions) [])
      (nightly "digest")).1 = .ok reply := ⟨_, rfl⟩
  have hall := submission_idempotency cronEnv defaultOptions [] [] (nightly "digest")
    (nightly "digest") _ _ reply rfl hreply rfl ⟨rfl, rfl⟩
  exact ⟨reply, hreply, hall.2.2.1 rfl ⟨by decide +kernel, by decide +kernel⟩⟩

def oneSlotJobs : Options :=
  { defaultOptions with maxSlotCost := 1, costPositive := Int.one_pos }

def refusal {α : Type} : Except Error α → Option Error
  | .ok _ => none
  | .error error => some error

/-- A trigger is created; another call under its key that has no digest is
refused as such, and the same call is refused once the store was opened with a
smaller maximum. -/
theorem submissions_refused :
    refusal (step cronEnv (freshStore defaultOptions) (nightly "digest")).1 = none ∧
      refusal (step cronEnv (run cronEnv (freshStore defaultOptions)
        [.call (nightly "digest")]) (nightly "")).1 =
        some (.text "request digest must not be empty") ∧
      refusal (step cronEnv (run cronEnv (freshStore defaultOptions)
        [.call (nightly "digest"), .call ⟨.reopen oneSlotJobs, ⟨1, 0⟩⟩]) (nightly "digest")).1 =
        some (.text "slot_cost 2 exceeds cluster maximum 1") := by
  decide +kernel

end RailYard.Properties
