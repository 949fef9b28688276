import RailYard.Properties.Submissions
import RailYard.Refinement.Verdicts
import RailYard.Server.Errors

/-! Whether one tenant can tell from the answers to its submissions what other
tenants have in the store. It can through the IDs that a submission looks up,
and in no other way. -/
namespace RailYard.Properties
open Library Library.Transaction Domain Store
open Refinement Lifecycle Server

variable {env : Env} {options : Options} {db db' : Database} {tenantID : String}

inductive Answer where
  | accepted
  | duplicate
  | rejected (answer : ErrorResponse)
  deriving DecidableEq

def outcomeOf : Except Error Reply → Answer
  | .ok (.job _ true) => .duplicate
  | .ok _ => .accepted
  | .error error => .rejected (mapStoreError error)

def submitOutcome (env : Env) (store : StoreState) (submission : Submission) (entropy : Entropy)
    (reading : Reading) : Answer :=
  outcomeOf (step env store ⟨.submitJob submission entropy, reading⟩).1

def answerWith (success : Answer) : Except Error Unit → Answer
  | .ok _ => success
  | .error error => .rejected (mapStoreError error)

/-- What decides about a submission: the row of its key, or else the verdict. -/
def expected (options : Options) (db : Database) (submission : Submission) (id : String) : Answer :=
  match db.idempotencyRequests.get?
    (submission.job.normalize.tenantID, submission.idempotencyKey) with
  | some row => answerWith .duplicate
      (recollect submission.idempotencyKey submission.requestDigest .job row ())
  | none => answerWith .accepted (submissionVerdict options db submission id)

theorem int64_bounds (value : Int) : (-2 ^ 63 : Int) ≤ int64 value ∧ int64 value < (2 ^ 63 : Int) := by
  unfold int64
  have hlow := Int.le_bmod (x := value) (show 0 < 2 ^ 64 by norm_num)
  have hhigh := Int.bmod_lt (x := value) (show 0 < 2 ^ 64 by norm_num)
  omega

theorem encodable_writeTime (clock : Clock) (reading : Reading) :
    encodableTime (clock.writeTime reading) = true := by
  have hrequested := int64_bounds reading.requested
  have helapsed := int64_bounds (clock.logicalOrigin + int64 reading.elapsed)
  have hlast := int64_bounds clock.lastTime
  rw [clock.lastTimeFits] at hlast
  have hlow : (-2 ^ 63 : Int) ≤ clock.writeTime reading := le_max_of_le_right hlast.1
  have hhigh : (2 ^ 63 : Int) > clock.writeTime reading :=
    max_lt (max_lt hrequested.2 helapsed.2) hlast.2
  have hyear0 : (-62167219200 * 1000000000 : Int) ≤ clock.writeTime reading := by omega
  have hyear10000 : (253402300800 * 1000000000 : Int) > clock.writeTime reading := by omega
  unfold encodableTime second
  rw [Bool.and_eq_true, decide_eq_true_iff, decide_eq_true_iff]
  exact ⟨hyear0, hyear10000⟩

theorem submitOutcome_eq (sound : Sound (yardOf store.db)) (submission : Submission)
    (entropy : Entropy) (reading : Reading) :
    submitOutcome env store submission entropy reading =
      expected store.options store.db submission (newID entropy) := by
  unfold submitOutcome expected
  cases hrow : store.db.idempotencyRequests.get?
      (submission.job.normalize.tenantID, submission.idempotencyKey) with
  | some row =>
    dsimp only
    let call : Call := ⟨.submitJob submission entropy, reading⟩
    have hrequest : requestOf call.op = some ⟨submission.job.normalize.tenantID,
      submission.idempotencyKey, .job, submission.requestDigest⟩ := rfl
    rw [(step_found env hrequest hrow).1]
    have hmap := map_recall (fun _ => Reply.job row.response.toJob true) submission.idempotencyKey
      submission.requestDigest .job row ()
    change outcomeOf (recollect _ _ _ row (Reply.job row.response.toJob true)) = _
    rw [← hmap]
    cases recollect submission.idempotencyKey submission.requestDigest .job row () <;> rfl
  | none =>
    dsimp only
    have hyields : Yields (submitJob store.options submission entropy
        (store.clock.writeTime reading)) store.db
        (submissionVerdict store.options store.db submission (newID entropy)) :=
      yields_submitJob sound.toCoherent (encodable_writeTime store.clock reading) hrow
    change outcomeOf (commit (submitJob store.options submission entropy
      (store.clock.writeTime reading) >>= fun result => pure (.job result.1 result.2)) store.db).1 = _
    unfold commit
    cases hverdict : submissionVerdict store.options store.db submission (newID entropy) with
    | error error =>
      rw [hverdict] at hyields
      obtain ⟨db', hrun⟩ := hyields
      rw [bind_run_error hrun]
      rfl
    | ok value =>
      rw [hverdict] at hyields
      obtain ⟨⟨job, duplicate⟩, db', hrun⟩ := hyields
      obtain rfl : duplicate = false := (submitJob_fresh hrow hrun).1
      rw [bind_run hrun]
      rfl

/-- Two stores that are open with the same options and have the same jobs,
requests and limits of a tenant. -/
structure AgreeOn (tenantID : String) (store store' : StoreState) : Prop where
  options : store.options = store'.options
  jobs : ∀ id row, row.tenantID = tenantID →
    (store.db.jobs.get? id = some row ↔ store'.db.jobs.get? id = some row)
  requests : ∀ key, store.db.idempotencyRequests.get? (tenantID, key) =
    store'.db.idempotencyRequests.get? (tenantID, key)
  limits : store.db.tenantLimits.get? tenantID = store'.db.tenantLimits.get? tenantID

structure Examined (options : Options) (db : Database) (submission : Submission) : Prop where
  key : validateIdempotency submission.idempotencyKey submission.requestDigest = .ok ()
  fresh : db.idempotencyRequests.get?
    (submission.job.normalize.tenantID, submission.idempotencyKey) = none
  valid : submission.job.normalize.validate options.maxSlotCost options.allowShell = .ok ()

/-- The IDs on which the answer may depend: the dependencies up to the first one
that is not a job of the tenant, and the ID that is drawn for the job if every
other check is passed. -/
inductive Consulted (options : Options) (db : Database) (submission : Submission)
    (drawn : String) : String → Prop
  | dependency {earlier later : List String} {id : String} :
    Examined options db submission → submission.job.dependsOn = earlier ++ id :: later →
    Passed db submission.job.normalize.tenantID earlier → id ≠ "" → id ∉ earlier →
    Consulted options db submission drawn id
  | drawn : Examined options db submission →
    Passed db submission.job.normalize.tenantID submission.job.dependsOn →
    HasCapacity options db submission.job.normalize.tenantID 1 →
    encodableTime submission.job.availableAt = true → Consulted options db submission drawn drawn

section Pairs

variable {store store' : StoreState} {id : String}

namespace AgreeOn

variable (agree : AgreeOn tenantID store store')
include agree

theorem own_iff (id : String) : Own store.db tenantID id ↔ Own store'.db tenantID id := by
  constructor
  · intro ⟨row, hrow, htenant⟩
    exact ⟨row, (agree.jobs id row htenant).mp hrow, htenant⟩
  · intro ⟨row, hrow, htenant⟩
    exact ⟨row, (agree.jobs id row htenant).mpr hrow, htenant⟩

theorem passed_iff (dependencies : List String) :
    Passed store.db tenantID dependencies ↔ Passed store'.db tenantID dependencies := by
  constructor
  · intro passed
    exact ⟨fun id hid => (agree.own_iff id).mp (passed.own id hid), passed.nodup, passed.named⟩
  · intro passed
    exact ⟨fun id hid => (agree.own_iff id).mpr (passed.own id hid), passed.nodup, passed.named⟩

theorem activeJobs_eq : activeJobs store.db tenantID = activeJobs store'.db tenantID := by
  unfold activeJobs
  apply List.Perm.length_eq
  rw [List.perm_ext_iff_of_nodup]
  · rintro ⟨id, row⟩
    simp only [List.mem_filter, Table.mem_rows_iff, decide_eq_true_eq]
    constructor
    · rintro ⟨hrow, htenant, halive⟩
      exact ⟨(agree.jobs id row htenant).mp hrow, htenant, halive⟩
    · rintro ⟨hrow, htenant, halive⟩
      exact ⟨(agree.jobs id row htenant).mpr hrow, htenant, halive⟩
  · exact store.db.jobs.nodupKeys.of_map.filter _
  · exact store'.db.jobs.nodupKeys.of_map.filter _

theorem hasCapacity_iff (incoming : Nat) : HasCapacity store.options store.db tenantID incoming ↔
    HasCapacity store'.options store'.db tenantID incoming := by
  unfold HasCapacity maxDepth
  rw [agree.activeJobs_eq, agree.limits, agree.options]

theorem absent_iff (h : Foreign store.db tenantID id ↔ Foreign store'.db tenantID id) :
    store.db.jobs.get? id = none ↔ store'.db.jobs.get? id = none := by
  constructor
  · intro habsent
    rcases own_or_foreign store'.db tenantID id with habsent' | hown | hother
    · exact habsent'
    · exact absurd ((agree.own_iff id).mpr hown) (not_own_of_absent habsent)
    · exact absurd (h.mpr hother) (not_foreign_of_absent habsent)
  · intro habsent
    rcases own_or_foreign store.db tenantID id with habsent' | hown | hother
    · exact habsent'
    · exact absurd ((agree.own_iff id).mp hown) (not_own_of_absent habsent)
    · exact absurd (h.mp hother) (not_foreign_of_absent habsent)

theorem checkDependency_eq {check : DependencyCheck} (h : id ≠ "" → id ∉ check.dependencies →
      (Foreign store.db tenantID id ↔ Foreign store'.db tenantID id)) :
    checkDependency store.db tenantID check id = checkDependency store'.db tenantID check id := by
  by_cases hnamed : id = ""
  · rw [checkDependency, if_pos hnamed, checkDependency, if_pos hnamed]
  by_cases hnew : id ∈ check.dependencies
  · rw [checkDependency, if_neg hnamed, if_pos hnew, checkDependency, if_neg hnamed, if_pos hnew]
  have hforeign := h hnamed hnew
  rcases own_or_foreign store.db tenantID id with habsent | ⟨row, hrow, htenant⟩ | hother
  · rw [checkDependency_absent hnamed hnew habsent,
      checkDependency_absent hnamed hnew ((agree.absent_iff hforeign).mp habsent)]
  · unfold checkDependency
    rw [hrow, (agree.jobs id row htenant).mp hrow]
  · rw [checkDependency_foreign hnamed hnew hother,
      checkDependency_foreign hnamed hnew (hforeign.mp hother)]

theorem loop_eq {start : DependencyCheck} (h : ∀ earlier id later, rest = earlier ++ id :: later →
      (∀ other ∈ earlier, Own store.db tenantID other) → (start.dependencies ++ earlier).Nodup →
      "" ∉ earlier → id ≠ "" → id ∉ start.dependencies ++ earlier →
      (Foreign store.db tenantID id ↔ Foreign store'.db tenantID id))
    (nodup : start.dependencies.Nodup) :
    rest.foldlM (checkDependency store.db tenantID) start =
      rest.foldlM (checkDependency store'.db tenantID) start := by
  induction rest generalizing start with
  | nil => rfl
  | cons id rest ih =>
    have hsame : checkDependency store.db tenantID start id =
        checkDependency store'.db tenantID start id := by
      apply agree.checkDependency_eq
      intro hnamed hnew
      apply h [] id rest rfl (by simp) (by simpa using nodup) (by simp) hnamed
      simpa using hnew
    rw [List.foldlM_cons, List.foldlM_cons, ← hsame]
    cases hitem : checkDependency store.db tenantID start id with
    | error error => rfl
    | ok between =>
      obtain ⟨hnamed, _, hown, hgrown⟩ := checkDependency_ok hitem
      refine ih (fun earlier other later hrest howns hnodups hnames hother hfresh => ?_)
        (checkDependency_nodup hitem nodup)
      rw [hgrown, List.append_assoc, List.singleton_append] at hnodups hfresh
      refine h (id :: earlier) other later (by rw [hrest]; rfl) ?_ hnodups ?_ hother hfresh
      · rw [List.forall_mem_cons]
        exact ⟨hown, howns⟩
      · rw [List.mem_cons, not_or]
        exact ⟨hnamed.symm, hnames⟩

end AgreeOn

end Pairs

section Answers

variable {submission : Submission} {drawn id : String}

theorem expected_examined (examined : Examined options db submission) :
    expected options db submission drawn = answerWith .accepted (do
      (validateExistingDependencies db submission.job.normalize.tenantID
        submission.job.dependsOn).map fun _ => ()
      demand (HasCapacity options db submission.job.normalize.tenantID 1) .queueFull
      demand (db.jobs.get? drawn = none) (.wrapped "insert job" (.constraint "jobs"))
      demand (encodableTime submission.job.availableAt = true) (.text "encode response")) := by
  unfold expected
  rw [examined.fresh]
  dsimp only
  unfold submissionVerdict admissionVerdict
  rw [examined.key, examined.valid]
  change answerWith .accepted ((_ >>= fun _ => _ >>= fun _ => _) >>= _) = _
  simp only [bind_assoc]
  rfl

theorem mapStoreError_insert :
    mapStoreError (.wrapped "insert job" (.constraint "jobs")) = internalError := by
  decide

theorem mapStoreError_notFound (id : String) :
    mapStoreError (.wrapped "dependency %q" .notFound [id]) =
      ⟨404, "not_found", "resource not found", 0⟩ := by
  simp [mapStoreError, mappedErrors, Error.is]

theorem mapStoreError_foreign (id : String) :
    mapStoreError (.about "dependency %q belongs to another tenant" [id]) = internalError := by
  simp [mapStoreError, mappedErrors, Error.is]

theorem mapStoreError_encode : mapStoreError (.text "encode response") = internalError := by
  decide

theorem expected_dependency (examined : Examined options db submission)
    (hsplit : submission.job.dependsOn = earlier ++ id :: later)
    (passed : Passed db submission.job.normalize.tenantID earlier) (hnamed : id ≠ "")
    (hnew : id ∉ earlier) :
    (db.jobs.get? id = none → expected options db submission drawn =
      .rejected ⟨404, "not_found", "resource not found", 0⟩) ∧
    (Foreign db submission.job.normalize.tenantID id → expected options db submission drawn =
      .rejected internalError) := by
  obtain ⟨habsent, hforeign⟩ := validate_stranger passed hnamed hnew later
  rw [expected_examined examined, hsplit]
  constructor
  · intro h
    rw [habsent h, ← mapStoreError_notFound id]
    rfl
  · intro h
    rw [hforeign h, ← mapStoreError_foreign id]
    rfl

theorem expected_drawn (examined : Examined options db submission)
    (passed : Passed db submission.job.normalize.tenantID submission.job.dependsOn)
    (room : HasCapacity options db submission.job.normalize.tenantID 1)
    (encodable : encodableTime submission.job.availableAt = true) :
    (db.jobs.get? drawn = none → expected options db submission drawn = .accepted) ∧
    (Foreign db submission.job.normalize.tenantID drawn → expected options db submission drawn =
      .rejected internalError) := by
  obtain ⟨check, hcheck, _⟩ := passed.run
  rw [expected_examined examined, hcheck]
  unfold demand
  rw [if_pos room, if_pos encodable]
  constructor
  · intro h
    rw [if_pos h]
    rfl
  · intro ⟨row, hrow, _⟩
    rw [hrow, if_neg (Option.some_ne_none row), ← mapStoreError_insert]
    rfl

theorem foreign_iff_of_same (agree : AgreeOn tenantID store store') {answer : Answer}
    (hne : absent ≠ foreign) (first : (store.db.jobs.get? id = none → answer = absent) ∧
      (Foreign store.db tenantID id → answer = foreign))
    (second : (store'.db.jobs.get? id = none → answer' = absent) ∧
      (Foreign store'.db tenantID id → answer' = foreign)) (hsame : answer = answer') :
    Foreign store.db tenantID id ↔ Foreign store'.db tenantID id := by
  constructor
  · intro hforeign
    rcases own_or_foreign store'.db tenantID id with habsent | hown | hforeign'
    · rw [first.2 hforeign, second.1 habsent] at hsame
      exact absurd hsame.symm hne
    · exact absurd ((agree.own_iff id).mpr hown) hforeign.not_own
    · exact hforeign'
  · intro hforeign
    rcases own_or_foreign store.db tenantID id with habsent | hown | hforeign'
    · rw [first.1 habsent, second.2 hforeign] at hsame
      exact absurd hsame hne
    · exact absurd ((agree.own_iff id).mp hown) hforeign.not_own
    · exact hforeign'

theorem AgreeOn.examined_iff (agree : AgreeOn submission.job.normalize.tenantID store store') :
    Examined store.options store.db submission ↔
      Examined store'.options store'.db submission := by
  constructor
  · intro ⟨hkey, hfresh, hvalid⟩
    exact ⟨hkey, by rw [← agree.requests]; exact hfresh, by rw [← agree.options]; exact hvalid⟩
  · intro ⟨hkey, hfresh, hvalid⟩
    exact ⟨hkey, by rw [agree.requests]; exact hfresh, by rw [agree.options]; exact hvalid⟩

theorem AgreeOn.expected_eq_of_unexamined
    (agree : AgreeOn submission.job.normalize.tenantID store store')
    (h : ¬Examined store.options store.db submission) :
    expected store.options store.db submission drawn =
      expected store'.options store'.db submission drawn := by
  unfold expected
  rw [← agree.requests]
  cases hfresh : store.db.idempotencyRequests.get?
      (submission.job.normalize.tenantID, submission.idempotencyKey) with
  | some row => rfl
  | none =>
    dsimp only
    unfold submissionVerdict admissionVerdict
    rw [← agree.options]
    cases hkey : validateIdempotency submission.idempotencyKey submission.requestDigest with
    | error error => rfl
    | ok _ =>
      cases hvalid : submission.job.normalize.validate store.options.maxSlotCost
          store.options.allowShell with
      | error error => rfl
      | ok _ => exact absurd ⟨hkey, hfresh, hvalid⟩ h

theorem AgreeOn.expected_eq (agree : AgreeOn submission.job.normalize.tenantID store store')
    (examined : Examined store.options store.db submission)
    (h : ∀ id, Consulted store.options store.db submission drawn id →
      (Foreign store.db submission.job.normalize.tenantID id ↔
        Foreign store'.db submission.job.normalize.tenantID id)) :
    expected store.options store.db submission drawn =
      expected store'.options store'.db submission drawn := by
  have hchecks : validateExistingDependencies store.db submission.job.normalize.tenantID
      submission.job.dependsOn = validateExistingDependencies store'.db
        submission.job.normalize.tenantID submission.job.dependsOn := by
    refine agree.loop_eq ?_ List.nodup_nil
    intro earlier id later hsplit hown hnodup hnames hnamed hnew
    exact h id (.dependency examined hsplit ⟨hown, hnodup, hnames⟩ hnamed hnew)
  rw [expected_examined examined, expected_examined (agree.examined_iff.mp examined), ← hchecks]
  cases hcheck : validateExistingDependencies store.db submission.job.normalize.tenantID
      submission.job.dependsOn with
  | error error => rfl
  | ok check =>
    have passed := (Refinement.passed_iff _).mpr ⟨check, hcheck⟩
    unfold demand
    by_cases hroom : HasCapacity store.options store.db submission.job.normalize.tenantID 1
    · rw [if_pos hroom, if_pos ((agree.hasCapacity_iff 1).mp hroom)]
      by_cases hencodable : encodableTime submission.job.availableAt = true
      · have hforeign := h drawn (.drawn examined passed hroom hencodable)
        simp only [agree.absent_iff hforeign]
      · -- the body cannot be encoded, so the answer is the same if the ID is taken
        have hanswer : ∀ absent : Prop, [Decidable absent] → answerWith .accepted
            ((if absent then .ok () else .error (.wrapped "insert job" (.constraint "jobs"))) >>=
              fun _ => if encodableTime submission.job.availableAt = true then .ok ()
                else .error (.text "encode response")) = .rejected internalError := by
          intro absent _
          rw [if_neg hencodable]
          split
          · exact congrArg Answer.rejected mapStoreError_encode
          · exact congrArg Answer.rejected mapStoreError_insert
        exact (hanswer _).trans (hanswer _).symm
    · rw [if_neg hroom, if_neg (mt (agree.hasCapacity_iff 1).mpr hroom)]
      rfl

end Answers

theorem jobs_of_submitJob (env : Env) (store : StoreState) (submission : Submission)
    (entropy : Entropy) (reading : Reading) {id : String} (h : store.db.jobs.get? id = some row) :
    (step env store ⟨.submitJob submission entropy, reading⟩).2.db.jobs.get? id = some row := by
  cases hfound : store.db.idempotencyRequests.get?
      (submission.job.normalize.tenantID, submission.idempotencyKey) with
  | some found =>
    let call : Call := ⟨.submitJob submission entropy, reading⟩
    have hrequest : requestOf call.op = some ⟨submission.job.normalize.tenantID,
      submission.idempotencyKey, .job, submission.requestDigest⟩ := rfl
    rw [(step_found env hrequest hfound).2]
    exact h
  | none =>
    change (commit (submitJob store.options submission entropy (store.clock.writeTime reading) >>=
      fun result => pure (Reply.job result.1 result.2)) store.db).2.jobs.get? id = some row
    unfold commit
    cases hrun : submitJob store.options submission entropy (store.clock.writeTime reading)
        store.db with
    | error error db' =>
      rw [bind_run_error hrun]
      exact h
    | ok result db' =>
      obtain ⟨job, duplicate⟩ := result
      obtain rfl : duplicate = false := (submitJob_fresh hfound hrun).1
      rw [bind_run hrun]
      change db'.jobs.get? id = some row
      rw [(submitJob_row hrun).2.2]
      exact Table.get?_insert_of_get? _ _ _ h

/-- Other tenants' jobs are never changed by a submission, and they show in its
answer if and only if one of the IDs that it consults is a job of another tenant
in one of two stores and not in the other. -/
theorem tenants_isolated_iff (env : Env) (options options' : Options)
    (activities activities' : List Activity) (submission : Submission) (entropy : Entropy)
    (reading reading' : Reading) :
    let store := run env (freshStore options) activities
    let store' := run env (freshStore options') activities'
    let tenantID := submission.job.normalize.tenantID
    AgreeOn tenantID store store' →
      (∀ id row, store.db.jobs.get? id = some row → row.tenantID ≠ tenantID →
        (step env store ⟨.submitJob submission entropy, reading⟩).2.db.jobs.get? id = some row) ∧
      (submitOutcome env store submission entropy reading =
          submitOutcome env store' submission entropy reading' ↔
        ∀ id, Consulted store.options store.db submission (newID entropy) id →
          (Foreign store.db tenantID id ↔ Foreign store'.db tenantID id)) := by
  intro store store' tenantID agree
  refine ⟨fun id row hrow _ => jobs_of_submitJob env store submission entropy reading hrow, ?_⟩
  rw [submitOutcome_eq (sound_run env options activities),
    submitOutcome_eq (sound_run env options' activities')]
  constructor
  · intro hsame id consulted
    cases consulted with
    | dependency examined hsplit passed hnamed hnew =>
      exact foreign_iff_of_same agree (by decide)
        (expected_dependency examined hsplit passed hnamed hnew)
        (expected_dependency (agree.examined_iff.mp examined) hsplit
          ((agree.passed_iff _).mp passed) hnamed hnew) hsame
    | drawn examined passed room encodable =>
      exact foreign_iff_of_same agree (by decide)
        (expected_drawn examined passed room encodable)
        (expected_drawn (agree.examined_iff.mp examined) ((agree.passed_iff _).mp passed)
          ((agree.hasCapacity_iff 1).mp room) encodable) hsame
  · intro h
    by_cases examined : Examined store.options store.db submission
    · exact agree.expected_eq examined h
    · exact agree.expected_eq_of_unexamined examined

structure Unknown (tenantID : String) (db : Database) : Prop where
  jobs : ∀ entry ∈ db.jobs.rows, entry.2.tenantID ≠ tenantID
  requests : ∀ entry ∈ db.idempotencyRequests.rows, entry.1.1 ≠ tenantID
  limits : db.tenantLimits.get? tenantID = none
  queues : ∀ entry ∈ db.queueState.rows, entry.1.1 ≠ tenantID

theorem agreeOn_of_unknown (options : store.options = store'.options)
    (h : Unknown tenantID store.db) (h' : Unknown tenantID store'.db) :
    AgreeOn tenantID store store' where
  options := options
  jobs id row htenant := by
    constructor
    · intro hrow
      exact absurd htenant (h.jobs (id, row) ((Table.mem_rows_iff _ _ _).mpr hrow))
    · intro hrow
      exact absurd htenant (h'.jobs (id, row) ((Table.mem_rows_iff _ _ _).mpr hrow))
  requests key := by
    have hnone : ∀ db : Database, Unknown tenantID db →
        db.idempotencyRequests.get? (tenantID, key) = none := by
      intro db unknown
      by_contra hsome
      obtain ⟨row, hrow⟩ := Option.ne_none_iff_exists'.mp hsome
      exact unknown.requests ((tenantID, key), row) ((Table.mem_rows_iff _ _ _).mpr hrow) rfl
    rw [hnone _ h, hnone _ h']
  limits := by rw [h.limits, h'.limits]

/-- The job of a tenant that was not there before; it depends on these. -/
def newcomer (dependsOn : List String) : Submission where
  job := { tenantID := "newcomer", payload := { type := .noop }, dependsOn := dependsOn }
  actor := "api"
  idempotencyKey := "key"
  requestDigest := "digest"

theorem unknown_fresh : Unknown "newcomer" (run plainEnv (freshStore defaultOptions) []).db :=
  ⟨by decide +kernel, by decide +kernel, by decide +kernel, by decide +kernel⟩

theorem unknown_beside : Unknown "newcomer"
    (run plainEnv (freshStore defaultOptions) [plainJob 1 []]).db :=
  ⟨by decide +kernel, by decide +kernel, by decide +kernel, by decide +kernel⟩

/-- A job without dependencies is admitted beside the job of another tenant too. -/
theorem tenants_isolated_beside :
    submitOutcome plainEnv (run plainEnv (freshStore defaultOptions) []) (newcomer []) (entropyOf 2)
        ⟨1, 0⟩ =
      submitOutcome plainEnv (run plainEnv (freshStore defaultOptions) [plainJob 1 []])
        (newcomer []) (entropyOf 2) ⟨1, 0⟩ := by
  have agree := agreeOn_of_unknown (by rfl) unknown_fresh unknown_beside
  refine ((tenants_isolated_iff plainEnv defaultOptions defaultOptions [] [plainJob 1 []]
    (newcomer []) (entropyOf 2) ⟨1, 0⟩ ⟨1, 0⟩ agree).2).mpr ?_
  intro id consulted
  cases consulted with
  | dependency _ hsplit => simp [newcomer] at hsplit
  | drawn =>
    exact iff_of_false (not_foreign_of_absent (by decide +kernel))
      (not_foreign_of_absent (by decide +kernel))

/-- A dependency on a job of another tenant is an error of the server, and one on
no job at all is not found. -/
theorem tenant_detects_job :
    let store := run plainEnv (freshStore defaultOptions) []
    let store' := run plainEnv (freshStore defaultOptions) [plainJob 1 []]
    Unknown "newcomer" store.db ∧ Unknown "newcomer" store'.db ∧ store.options = store'.options ∧
      submitOutcome plainEnv store (newcomer [newID (entropyOf 1)]) (entropyOf 2) ⟨1, 0⟩ =
        .rejected ⟨404, "not_found", "resource not found", 0⟩ ∧
      submitOutcome plainEnv store' (newcomer [newID (entropyOf 1)]) (entropyOf 2) ⟨1, 0⟩ =
        .rejected ⟨500, "internal_error", "internal server error", 0⟩ :=
  ⟨unknown_fresh, unknown_beside, rfl, by decide +kernel, by decide +kernel⟩

end RailYard.Properties
