import RailYard.Properties.Leases

/-! When the reaper sees that a lease has run out. The clock of a store never goes
back, but it goes on only while a caller's time or the store's origin plus the
elapsed time is ahead of it: after the callers' clock has been set back it stands
still. -/
namespace RailYard.Properties
open Library.Transaction Domain Store
open Refinement

variable {env : Env}

def ticks (op : Op) : Bool := op.early.isNone && op.gated

theorem clock_step (env : Env) (store : StoreState) (hopen : ∀ options, call.op ≠ .reopen options) :
    (step env store call).2.clock =
      if ticks call.op then store.clock.tick call.reading else store.clock := by
  obtain ⟨options, hop, _⟩ | hstep := step_eq env store call
  · exact (hopen options hop).elim
  rw [hstep]
  unfold execute ticks
  cases call.op.early with
  | some reply => rfl
  | none =>
    cases call.op.gated with
    | false => rfl
    | true => rfl

/-- The call takes a write time, and one of the two clocks it reads has come to the
bound. -/
def ReadsPast (origin bound : Int) (call : Call) : Prop :=
  ticks call.op = true ∧
    (bound ≤ int64 call.reading.requested ∨
      bound ≤ int64 (origin + int64 call.reading.elapsed))

theorem le_writeTime_iff (clock : Clock) (reading : Reading) (bound : Int) :
    bound ≤ clock.writeTime reading ↔
      bound ≤ clock.lastTime ∨ bound ≤ int64 reading.requested ∨
        bound ≤ int64 (clock.logicalOrigin + int64 reading.elapsed) := by
  unfold Clock.writeTime
  rw [le_max_iff, le_max_iff, or_comm]

theorem le_lastTime_step (store : StoreState) (hopen : ∀ options, call.op ≠ .reopen options)
    (bound : Int) :
    bound ≤ (step env store call).2.clock.lastTime ↔
      bound ≤ store.clock.lastTime ∨ ReadsPast store.clock.logicalOrigin bound call := by
  rw [clock_step env store hopen]
  unfold ReadsPast
  cases ticks call.op with
  | true =>
    rw [if_pos rfl, eq_self, true_and]
    exact le_writeTime_iff store.clock call.reading bound
  | false =>
    rw [if_neg Bool.false_ne_true]
    simp only [Bool.false_eq_true, false_and, or_false]

theorem le_lastTime_calls (env : Env) (store : StoreState)
    (hopen : ∀ call ∈ calls, ∀ options, call.op ≠ .reopen options) (bound : Int) :
    (runCalls env store calls).clock.logicalOrigin = store.clock.logicalOrigin ∧
      (bound ≤ (runCalls env store calls).clock.lastTime ↔
        bound ≤ store.clock.lastTime ∨
          ∃ call ∈ calls, ReadsPast store.clock.logicalOrigin bound call) := by
  induction calls generalizing store with
  | nil => exact ⟨rfl, by simp [runCalls]⟩
  | cons call rest ih =>
    obtain ⟨hcall, hrest⟩ := List.forall_mem_cons.mp hopen
    have horigin : (step env store call).2.clock.logicalOrigin = store.clock.logicalOrigin := by
      rw [clock_step env store hcall]
      split <;> rfl
    obtain ⟨hkept, hreached⟩ := ih (step env store call).2 hrest
    refine ⟨hkept.trans horigin, ?_⟩
    change bound ≤ (runCalls env (step env store call).2 rest).clock.lastTime ↔ _
    rw [hreached, le_lastTime_step store hcall, horigin, List.exists_mem_cons_iff, or_assoc]

theorem grantLeases_expiresAt {index : Nat}
    (h : grantLeases sha256 request now plan tokens index grants db = .ok leases db') :
    ∀ lease ∈ leases, lease.expiresAt = now + request.leaseTTL := by
  induction grants generalizing index db leases with
  | nil =>
    obtain ⟨rfl, _⟩ := pure_ok h
    exact fun _ hlease => (List.not_mem_nil hlease).elim
  | cons grant rest ih =>
    obtain ⟨lease, db1, hlease, h⟩ := bind_ok h
    obtain ⟨others, db2, hothers, h⟩ := bind_ok h
    obtain ⟨rfl, rfl⟩ := pure_ok h
    refine List.forall_mem_cons.mpr ⟨?_, ih hothers⟩
    obtain ⟨_, _, _, hlease⟩ := grantLease_ok hlease
    exact (scheduleCandidate_lease hlease).2.2.2

theorem lastTime_granted (h : lease ∈ leasesGranted env store ⟨.acquire request tokens, reading⟩) :
    (step env store ⟨.acquire request tokens, reading⟩).2.clock = store.clock.tick reading := by
  have hticks : ticks (Op.acquire request tokens) = true := by
    cases hearly : (Op.acquire request tokens).early with
    | none =>
      unfold ticks
      rw [hearly]
      rfl
    | some reply =>
      change lease ∈ replyLeases (execute env store ⟨.acquire request tokens, reading⟩).1 at h
      unfold execute at h
      rw [hearly, replyLeases_early hearly] at h
      exact (List.not_mem_nil h).elim
  rw [clock_step env store fun _ => Op.noConfusion, if_pos hticks]

/-- The lease is the current one of its job and still has the expiry it was granted
with. -/
structure Untouched (db : Database) (lease : Lease) (attempt : AttemptRow) (job : JobRow) :
    Prop where
  foundAttempt : db.attempts.get? (lease.jobID, lease.attemptNo) = some attempt
  foundJob : db.jobs.get? lease.jobID = some job
  attemptNo : job.attemptNo = lease.attemptNo
  generation : job.leaseGeneration = attempt.leaseGeneration
  isOpen : attempt.state.isOpen = true
  leased : job.state.leased = true
  expiresAt : attempt.expiresAt = timeToDB lease.expiresAt

def SeenExpired (lease : Lease) (now : Time) : Prop := timeToDB lease.expiresAt ≤ timeToDB now

instance (lease : Lease) (now : Time) : Decidable (SeenExpired lease now) :=
  inferInstanceAs (Decidable (timeToDB lease.expiresAt ≤ timeToDB now))

/-- After a grant, any calls of the same process and a reap, the reaper sees the
lease as expired if and only if a write since the grant, its own included, read a
time at or after the expiry: from its caller, or as the store's origin plus the
elapsed time. (An expiry past the range of the column is behind the grant itself.) -/
theorem lease_expires_iff (env : Env) (options : Options) (activities : List Activity)
    (request : AcquireRequest) (tokens : Nat → Entropy) (granting : Reading) (lease : Lease)
    (later : List Call) (limit : Int) (reaping : Reading)
    (granted : lease ∈ leasesGranted env (run env (freshStore options) activities)
      ⟨.acquire request tokens, granting⟩)
    (sameProcess : ∀ call ∈ later, ∀ options, call.op ≠ .reopen options)
    (positive : 1 ≤ limit) :
    let store := run env (freshStore options) activities
    let waited := runCalls env (step env store ⟨.acquire request tokens, granting⟩).2 later
    let now := waited.clock.writeTime reaping
    lease.expiresAt = store.clock.writeTime granting + request.leaseTTL ∧
      (SeenExpired lease now ↔
        SeenExpired lease (store.clock.writeTime granting) ∨
          ∃ call ∈ later ++ [⟨.reapExpired limit, reaping⟩],
            ReadsPast store.clock.logicalOrigin (timeToDB lease.expiresAt) call) ∧
      ∀ attempt job, Untouched waited.db lease attempt job →
        ((lease.jobID, ⟨lease.attemptNo, attempt, job⟩) ∈ expiredLeases waited.db now ↔
          SeenExpired lease now) := by
  intro store waited now
  refine ⟨?_, ?_, fun attempt job h => ?_⟩
  rotate_left 2
  · rw [mem_expiredLeases, SeenExpired, ← h.expiresAt]
    exact ⟨fun expired => expired.due, fun due =>
      ⟨h.foundAttempt, h.foundJob, h.attemptNo, h.generation, h.isOpen, due, h.leased⟩⟩
  · obtain ⟨leases, db', hacquire, hlease⟩ := exists_acquire granted
    rcases acquire_cases hacquire with ⟨_, rfl, _⟩ | ⟨decision, db1, _, hgrants, _⟩
    · exact (List.not_mem_nil hlease).elim
    · exact grantLeases_expiresAt hgrants lease hlease
  have hclock := lastTime_granted granted
  obtain ⟨horigin, hreached⟩ := le_lastTime_calls env
    (step env store ⟨.acquire request tokens, granting⟩).2 sameProcess (timeToDB lease.expiresAt)
  rw [hclock] at horigin hreached
  have hreap : ReadsPast store.clock.logicalOrigin (timeToDB lease.expiresAt)
      ⟨.reapExpired limit, reaping⟩ ↔ timeToDB lease.expiresAt ≤ int64 reaping.requested ∨
        timeToDB lease.expiresAt ≤ int64 (store.clock.logicalOrigin + int64 reaping.elapsed) := by
    have hticks : ticks (.reapExpired limit) = true := by
      change ((if limit < 1 then _ else none).isNone && true) = true
      rw [if_neg (by omega)]
      rfl
    exact and_iff_right hticks
  have hfits : ∀ (clock : Clock) (reading : Reading),
      timeToDB (clock.writeTime reading) = clock.writeTime reading := Clock.writeTime_fits
  unfold SeenExpired
  rw [hfits, hfits, le_writeTime_iff, hreached]
  simp only [List.mem_append, List.mem_singleton, or_and_right, exists_or, exists_eq_left, hreap,
    or_assoc]
  rw [horigin]
  rfl

def acquireHalfMinute : Op :=
  .acquire { workerID := "worker", availableSlots := 1, limit := 1, leaseTTL := 30000000000 }
    (fun index => entropyOf index.toUInt8)

def september2001 : Time := 1000000000000000000

/-- The lease expires when a reaper reads the time of its expiry. -/
theorem lease_expires_in_time :
    let store := run plainEnv (freshStore defaultOptions) [plainJob 1 []]
    let granting : Reading := ⟨september2001, 0⟩
    (leasesGranted plainEnv store ⟨acquireHalfMinute, granting⟩).length = 1 ∧
      ∀ lease ∈ leasesGranted plainEnv store ⟨acquireHalfMinute, granting⟩,
        SeenExpired lease
          ((step plainEnv store ⟨acquireHalfMinute, granting⟩).2.clock.writeTime
            ⟨september2001 + 30000000000, 0⟩) := by
  intro store granting
  refine ⟨by decide +kernel, fun lease hlease => ?_⟩
  have hiff := lease_expires_iff plainEnv defaultOptions [plainJob 1 []] _ _ granting lease [] 1
    ⟨september2001 + 30000000000, 0⟩ hlease (fun _ hcall => (List.not_mem_nil hcall).elim) le_rfl
  obtain ⟨hexpiry, hseen, _⟩ := hiff
  refine hseen.mpr (.inr ⟨_, List.mem_singleton_self _, rfl, .inl ?_⟩)
  rw [hexpiry]
  decide +kernel

/-- The callers' clock is set back by an hour right after the grant: thirty seconds
later the lease is open, its time is over, and the reaper does not see it. -/
theorem lease_outlives_its_time :
    let store := run plainEnv (freshStore defaultOptions) [plainJob 1 []]
    let grant : Call := ⟨acquireHalfMinute, ⟨september2001, 0⟩⟩
    let reap : Reading := ⟨september2001 - 3600000000000, 30000000000⟩
    let granted := (step plainEnv store grant).2
    (leasesGranted plainEnv store grant).map (fun lease =>
        (decide (lease.expiresAt - store.clock.writeTime grant.reading = 30000000000),
          decide (SeenExpired lease (granted.clock.writeTime reap)))) = [(true, false)] ∧
      (granted.db.attempts.rows.map fun entry => entry.2.state.isOpen) = [true] ∧
      expiredLeases granted.db (granted.clock.writeTime reap) = [] := by
  decide +kernel

end RailYard.Properties
