import RailYard.Properties.Dependencies
import RailYard.Refinement.Fencing

/-! Leases in every reachable state: only the holder of the latest grant of a
job can write with it, and, as long as no failure reaches a job that is leased,
the open attempts are exactly the current leases. -/
namespace RailYard.Properties
open Library.Transaction Domain Store
open Lifecycle Refinement Relation

def leaseRef (lease : Lease) : LeaseRef :=
  ⟨lease.jobID, lease.attemptNo, lease.generation, lease.token⟩

/-- The caller presents exactly the latest grant of the job, which is neither
closed nor expired. -/
def Live (grants : List Lease) (db : Database) (now : Time) (workerID : String)
    (ref : LeaseRef) : Prop :=
  ∃ lease attempt, latestGrant grants ref.jobID = some lease ∧ workerID = lease.workerID ∧
    ref = leaseRef lease ∧ db.attempts.get? (ref.jobID, ref.attemptNo) = some attempt ∧
    attempt.state.isOpen = true ∧ timeToDB now < attempt.expiresAt

def Lost (grants : List Lease) (db : Database) (lease : Lease) : Prop :=
  latestGrant grants lease.jobID ≠ some lease ∨
    (∀ attempt, db.attempts.get? (lease.jobID, lease.attemptNo) = some attempt →
      attempt.state.isOpen = false) ∨
    ∀ job, db.jobs.get? lease.jobID = some job → job.state.leased = false

structure Refused (sha256 : Hash) (db : Database) (now : Time) (workerID : String)
    (ref : LeaseRef) : Prop where
  start : Inert (markRunningTx sha256 workerID ref now) db
  heartbeat : ∀ requestedExpiry, Inert (heartbeatOne sha256 workerID now requestedExpiry ref) db
  complete : ∀ completion : Completion, completion.toLeaseRef = ref →
    completion.workerID = workerID → Inert (applyCompletionTx sha256 completion now) db

theorem live_of_held (collisionFree : Function.Injective (tokenHash sha256))
    (recorded : Recorded sha256 grants (yardOf db)) (h : Held sha256 db now workerID ref) :
    Live grants db now workerID ref := by
  obtain ⟨attempt, job, husable, hopen, _⟩ := h
  have hfenced := husable.fenced
  unfold fenced at hfenced
  simp only [Bool.and_eq_true, decide_eq_true_eq] at hfenced
  obtain ⟨⟨⟨⟨hworker, hgeneration⟩, htoken⟩, hcurrent⟩, _⟩ := hfenced
  obtain ⟨lease, hlease, hjobID, hnumber, hcarries⟩ :=
    recorded.attempt ref.jobID ref.attemptNo attempt husable.found
  have hjob : (yardOf db).jobs.get? lease.jobID = some job := hjobID ▸ husable.current
  have hlatest := recorded.latest hlease hjob (hnumber.trans hcurrent.symm)
  have htokens : lease.token = ref.token := collisionFree (hcarries.tokenHash.symm.trans htoken)
  refine ⟨lease, attempt, hjobID ▸ hlatest, hworker.symm.trans hcarries.workerID, ?_,
    husable.found, hopen, husable.alive⟩
  unfold leaseRef
  rw [hjobID, hnumber, htokens, ← hcarries.generation, hgeneration]

theorem refused_of_not_held (h : ¬Held sha256 db now workerID ref) :
    Refused sha256 db now workerID ref where
  start := inert_markRunningTx h
  heartbeat := fun _ => inert_heartbeatOne h
  complete := by
    rintro completion rfl rfl
    exact inert_applyCompletionTx h

theorem not_holds_of_lost (fences : Fences (yardOf db))
    (recorded : Recorded sha256 grants (yardOf db)) (hlease : lease ∈ grants)
    (h : Lost grants db lease) :
    ¬(yardOf db).Holds lease.jobID lease.attemptNo := by
  rintro ⟨row, hrow, hleased, hnumber⟩
  rcases h with hsuperseded | hclosed | hmoved
  · exact hsuperseded (recorded.latest hlease hrow hnumber.symm)
  · obtain ⟨attempt, hattempt, hopen, _⟩ := fences.openAttempt hrow hleased
    rw [hnumber] at hattempt
    rw [hclosed attempt hattempt] at hopen
    cases hopen
  · rw [hmoved row hrow] at hleased
    cases hleased

/-- A call that does not present the latest grant of its job, open and not
expired, changes nothing, and nobody who has lost a lease can change anything
with it at any later time. -/
theorem lease_fencing (env : Env) (options : Options) (activities later : List Activity)
    (collisionFree : Function.Injective (tokenHash env.sha256)) :
    let store := run env (freshStore options) activities
    let grants := grantHistory env (freshStore options) activities
    let store' := run env (freshStore options) (activities ++ later)
    (∀ now workerID ref, ¬Live grants store.db now workerID ref →
      Refused env.sha256 store.db now workerID ref) ∧
    (∀ call pairs, presented call.op = some pairs →
      (∀ pair ∈ pairs, ¬Live grants store.db (callTime store call) pair.1 pair.2) →
      (step env store call).2.db = store.db) ∧
    ∀ calls : List Call, (∀ call ∈ calls, ∃ pairs, presented call.op = some pairs ∧
      ∀ pair ∈ pairs, ∃ lease ∈ grants, pair = (lease.workerID, leaseRef lease) ∧
        Lost grants store.db lease) →
      (runCalls env store' calls).db = store'.db := by
  intro store grants store'
  have hfresh : Recorded env.sha256 [] (yardOf (freshStore options).db) :=
    ⟨fun _ hlease => (by cases hlease), .nil, fun _ _ _ hattempt => by cases hattempt⟩
  have recorded := hfresh.run (sound_fresh options) activities
  have sound := sound_run env options activities
  refine ⟨fun now workerID ref hdead => ?_, fun call pairs hop hdead => ?_, fun calls hcalls => ?_⟩
  · exact refused_of_not_held fun hheld => hdead (live_of_held collisionFree recorded hheld)
  · exact step_inert hop fun pair hpair hheld =>
      hdead pair hpair (live_of_held collisionFree recorded hheld)
  · refine runCalls_inert fun call hcall => ?_
    obtain ⟨pairs, hop, hpairs⟩ := hcalls call hcall
    refine ⟨pairs, hop, fun pair hpair now hheld => ?_⟩
    obtain ⟨lease, hlease, rfl, hlost⟩ := hpairs pair hpair
    -- What is held now was held when the lease had already been lost.
    have hsteps : ReflTransGen (Step anyPolicy) (yardOf store.db) (yardOf store'.db) := by
      change ReflTransGen _ _ (yardOf (run env (freshStore options) (activities ++ later)).db)
      rw [run_append]
      exact steps_run sound later
    exact not_holds_of_lost sound.fences recorded hlease hlost
      (holds_of_micros (micros_of_steps hsteps) (recorded.bound lease hlease) hheld.holds)

def acquireTwo : Activity :=
  .call ⟨.acquire { workerID := "worker", availableSlots := 2, limit := 2, leaseTTL := 10 }
    (fun index => entropyOf index.toUInt8), ⟨1, 0⟩⟩

/-- A worker whose job was released comes back late, twice. -/
theorem lease_fencing_released :
    let store := run plainEnv (freshStore defaultOptions)
      [plainJob 1 [], acquireTwo, forceRelease 1]
    let late : Call := ⟨.markRunning "worker" ⟨newID (entropyOf 1), 1, 1, newID (entropyOf 0)⟩,
      ⟨2, 0⟩⟩
    (runCalls plainEnv store [late, late]).db = store.db := by
  have hgrants : (grantHistory plainEnv (freshStore defaultOptions)
      [plainJob 1 [], acquireTwo, forceRelease 1]).map
        (fun lease => (lease.workerID, leaseRef lease)) =
      [("worker", ⟨newID (entropyOf 1), 1, 1, newID (entropyOf 0)⟩)] := by
    decide +kernel
  have hclosed : ((run plainEnv (freshStore defaultOptions)
      [plainJob 1 [], acquireTwo, forceRelease 1]).db.attempts.get? (newID (entropyOf 1), 1)).map
        (fun attempt => attempt.state.isOpen) = some false := by
    decide +kernel
  refine (lease_fencing plainEnv defaultOptions [plainJob 1 [], acquireTwo, forceRelease 1] []
    (tokenHash_injective List.reverse_injective)).2.2 _ fun call hcall => ?_
  rw [List.mem_cons, List.mem_singleton, or_self] at hcall
  subst hcall
  refine ⟨_, rfl, fun pair hpair => ?_⟩
  rw [← hgrants] at hpair
  obtain ⟨lease, hlease, rfl⟩ := List.mem_map.mp hpair
  refine ⟨lease, hlease, rfl, .inr (.inl fun attempt hattempt => ?_)⟩
  rw [hgrants, List.mem_singleton, Prod.mk.injEq] at hpair
  unfold leaseRef at hpair
  rw [LeaseRef.mk.injEq] at hpair
  rw [hpair.2.1, hpair.2.2.1] at hattempt
  rw [hattempt, Option.map_some, Option.some.injEq] at hclosed
  exact hclosed

def IsCurrent (job : JobRow) (attemptNo : Int) (attempt : AttemptRow) : Prop :=
  attemptNo = job.attemptNo ∧ attempt.leaseGeneration = job.leaseGeneration

/-- The open attempts are the current leases, each in the state of its job. -/
structure LeasesExact (db : Database) : Prop where
  attempt : ∀ id attemptNo attempt, db.attempts.get? (id, attemptNo) = some attempt →
    ∃ job, db.jobs.get? id = some job ∧
      (attempt.state = .leased ↔ IsCurrent job attemptNo attempt ∧ job.state = .scheduled) ∧
      (attempt.state = .running ↔ IsCurrent job attemptNo attempt ∧ job.state = .running)
  idle : ∀ id job, db.jobs.get? id = some job →
    job.state.terminal = true ∨ job.state = .pending ∨ job.state = .retrying →
    ∀ attemptNo attempt, db.attempts.get? (id, attemptNo) = some attempt →
      attempt.state ≠ .leased ∧ attempt.state ≠ .running

theorem state_iff (fences : Fences (yardOf db)) (tidy : Tidy (yardOf db)) {id : String}
    {attempt : AttemptRow} {expected : AttemptState}
    (hattempt : db.attempts.get? (id, attemptNo) = some attempt) (hjob : db.jobs.get? id = some job)
    (hopen : expected.isOpen = true)
    (hlease : ∀ other, leaseState other = some expected ↔ other = state) :
    attempt.state = expected ↔ IsCurrent job attemptNo attempt ∧ job.state = state := by
  obtain ⟨_, _, _, _, hgeneration⟩ := fences.attempt id attemptNo attempt hattempt
  constructor
  · intro hstate
    obtain ⟨row, hrow, hnumber, hleased⟩ :=
      tidy id attemptNo attempt hattempt (hstate ▸ hopen)
    change db.jobs.get? id = some row at hrow
    rw [hjob, Option.some.injEq] at hrow
    subst hrow
    rw [hstate, hlease] at hleased
    refine ⟨⟨hnumber.symm, ?_⟩, hleased⟩
    rw [hgeneration, (fences.generation id job hjob).1, hnumber]
  · rintro ⟨⟨rfl, _⟩, hstate⟩
    obtain ⟨found, hfound, hexpected⟩ :=
      fences.current id job expected hjob ((hlease job.state).mpr hstate)
    change db.attempts.get? (id, job.attemptNo) = some found at hfound
    rw [hattempt, Option.some.injEq] at hfound
    rw [hfound]
    exact hexpected

theorem leasesExact_of_tidy (fences : Fences (yardOf db)) (tidy : Tidy (yardOf db)) :
    LeasesExact db where
  attempt := by
    intro id attemptNo attempt hattempt
    obtain ⟨job, hjob, _⟩ := fences.attempt id attemptNo attempt hattempt
    exact ⟨job, hjob, state_iff fences tidy hattempt hjob rfl (fun other => by cases other <;> decide),
      state_iff fences tidy hattempt hjob rfl (fun other => by cases other <;> decide)⟩
  idle := by
    intro id job hjob hidle attemptNo attempt hattempt
    have hunleased : job.state.leased = false := by
      rcases hidle with hidle | hidle | hidle
      · cases hstate : job.state <;> rw [hstate] at hidle <;> first | rfl | cases hidle
      · rw [hidle]
        rfl
      · rw [hidle]
        rfl
    have hclosed : attempt.state.isOpen = false := by
      refine Bool.eq_false_iff.mpr fun hopen => ?_
      obtain ⟨row, hrow, _, hleased⟩ := tidy id attemptNo attempt hattempt hopen
      change db.jobs.get? id = some row at hrow
      rw [hjob, Option.some.injEq] at hrow
      rw [← hrow, leaseState_of_unleased hunleased] at hleased
      cases hleased
    constructor <;> intro hstate <;> rw [hstate] at hclosed <;> cases hclosed

theorem tidy_empty : Tidy Yard.empty := fun _ _ _ h => by cases h

def FailsInOrder (env : Env) (store : StoreState) : Activity → Prop
  | .call call => sparesLeases env store.db (callTime store call) call.op = true
  | _ => True

/-- The open attempts are the current leases in every state that a run reaches
in which no failure finds a lease below it. -/
theorem open_attempts (env : Env) (options : Options) (activities : List Activity)
    (h : Along env (FailsInOrder env) (freshStore options) activities) :
    LeasesExact (run env (freshStore options) activities).db := by
  have hkeeps : ∀ store activity, FailsInOrder env store activity →
      KeepsTo env { tidy := True } store activity := by
    intro store activity hfails
    cases activity with
    | call call =>
      exact ⟨fun hfalse => hfalse.elim, fun _ => hfails, fun _ _ _ _ _ => trivial,
        fun _ _ _ _ _ _ _ => trivial⟩
    | fireDueCron => trivial
    | deliverRedis => trivial
  have hsteps := run_ok trivial (sound_fresh options) (h.imp hkeeps)
  have htidy : Tidy (yardOf (freshStore options).db) := tidy_empty
  exact leasesExact_of_tidy (sound_run env options activities).fences
    (htidy.steps trivial hsteps)

def cancel (byte : UInt8) : Activity :=
  .call ⟨.cancelJob {
    jobID := newID (entropyOf byte)
    actor := "operator"
    idempotencyKey := newID (entropyOf byte)
    requestDigest := "digest" }, ⟨1, 0⟩⟩

theorem open_attempts_cancelled :
    let activities := [plainJob 1 [], plainJob 2 [newID (entropyOf 1)], acquireTwo, cancel 1]
    Along plainEnv (FailsInOrder plainEnv) (freshStore defaultOptions) activities ∧
      LeasesExact (run plainEnv (freshStore defaultOptions) activities).db := by
  intro activities
  have halong : Along plainEnv (FailsInOrder plainEnv) (freshStore defaultOptions) activities := by
    refine ⟨?_, ?_, ?_, ?_, trivial⟩ <;>
    · change sparesLeases _ _ _ _ = true
      decide +kernel
  exact ⟨halong, open_attempts plainEnv defaultOptions activities halong⟩

/-- A child that an operator has released runs beside its parent. When the
parent is cancelled, the child fails with its attempt still leased. -/
theorem lease_outlives_job : ¬LeasesExact (run plainEnv (freshStore defaultOptions)
    [plainJob 1 [], plainJob 2 [newID (entropyOf 1)], forceRelease 2, acquireTwo,
      cancel 1]).db := by
  generalize hdb : (run plainEnv (freshStore defaultOptions)
    [plainJob 1 [], plainJob 2 [newID (entropyOf 1)], forceRelease 2, acquireTwo,
      cancel 1]).db = db
  have hchild : (db.jobs.get? (newID (entropyOf 2))).map JobRow.state = some .deadLetter := by
    subst hdb
    decide +kernel
  have hheld : (db.attempts.get? (newID (entropyOf 2), 1)).map AttemptRow.state = some .leased := by
    subst hdb
    decide +kernel
  intro hexact
  obtain ⟨job, hjob, hstate⟩ := Option.map_eq_some_iff.mp hchild
  obtain ⟨attempt, hattempt, hleased⟩ := Option.map_eq_some_iff.mp hheld
  exact (hexact.idle _ job hjob (.inl (by rw [hstate]; rfl)) 1 attempt hattempt).1 hleased

end RailYard.Properties
