import RailYard.Refinement.Runs

/-! Who was granted which lease. The leases that a run returns are recorded
beside the tables: they are numbered in order for each job, and every attempt
is the trace of one of them. -/
namespace RailYard.Refinement
open Library.Transaction Domain Store
open Lifecycle Relation

structure Carries (sha256 : Hash) (lease : Lease) (attempt : AttemptRow) : Prop where
  workerID : attempt.workerID = lease.workerID
  generation : attempt.leaseGeneration = lease.generation
  tokenHash : attempt.tokenHash = tokenHash sha256 lease.token

theorem Carries.same {attempt : AttemptRow} (h : Carries sha256 lease attempt)
    (same : SameHolder attempt changed) :
    Carries sha256 lease changed :=
  ⟨same.workerID.trans h.workerID, same.leaseGeneration.trans h.generation,
    same.tokenHash.trans h.tokenHash⟩

structure Recorded (sha256 : Hash) (grants : List Lease) (yard : Yard) : Prop where
  bound : ∀ lease ∈ grants, ∃ row, yard.jobs.get? lease.jobID = some row ∧
    lease.attemptNo ≤ row.attemptNo
  ascending : grants.Pairwise fun earlier later =>
    earlier.jobID = later.jobID → earlier.attemptNo < later.attemptNo
  attempt : ∀ id attemptNo attempt, yard.attempts.get? (id, attemptNo) = some attempt →
    ∃ lease ∈ grants, lease.jobID = id ∧ lease.attemptNo = attemptNo ∧
      Carries sha256 lease attempt

theorem Recorded.bound_evolves (h : Recorded sha256 grants yard) (hevolves : Evolves yard yard')
    (hlease : lease ∈ grants) :
    ∃ row, yard'.jobs.get? lease.jobID = some row ∧ lease.attemptNo ≤ row.attemptNo := by
  obtain ⟨row, hrow, hle⟩ := h.bound lease hlease
  obtain ⟨row', hrow', hlater⟩ := hevolves.jobs lease.jobID row hrow
  exact ⟨row', hrow', hle.trans hlater.attemptNo⟩

theorem Recorded.micros (quiet : ¬policy.granting) (h : Recorded sha256 grants yard)
    (hmicros : ReflTransGen (Micro policy) yard yard') : Recorded sha256 grants yard' := by
  refine preserved (motive := Recorded sha256 grants) ?_ hmicros h
  intro before after hrecorded hmicro
  refine ⟨fun _ => hrecorded.bound_evolves hmicro.evolves, hrecorded.ascending, ?_⟩
  intro id attemptNo attempt' hattempt'
  obtain ⟨attempt, hattempt, hsame⟩ := hmicro.holder_of_quiet quiet hattempt'
  obtain ⟨lease, hlease, hid, hnumber, hcarries⟩ :=
    hrecorded.attempt id attemptNo attempt hattempt
  exact ⟨lease, hlease, hid, hnumber, hcarries.same hsame⟩

theorem Recorded.granted (h : Recorded sha256 grants yard)
    (hgranted : Granted policy sha256 lease yard yard') :
    Recorded sha256 (grants ++ [lease]) yard' := by
  have hevolves := evolves_of_micros hgranted.step.micros
  obtain ⟨move, attempt, hvalid, rfl, hid, _, hnumber, _, habsent, hattempt, hworker,
    hgeneration, htoken⟩ := hgranted.exists_move
  have hself := Move.get?_apply_self hvalid
  rw [hid] at hself
  have hnext : move.next.attemptNo = move.row.attemptNo + 1 := by
    rcases hvalid.kind.attempts_cases hattempt with ⟨_, hold, _⟩ | ⟨_, hnext, _⟩
    · rw [habsent] at hold
      cases hold
    · exact hnext
  refine ⟨?_, ?_, ?_⟩
  · intro other hother
    rcases List.mem_append.mp hother with hother | hother
    · exact h.bound_evolves hevolves hother
    · rw [List.mem_singleton.mp hother]
      exact ⟨move.next, hself, hnumber.ge⟩
  · refine List.pairwise_append.mpr ⟨h.ascending, List.pairwise_singleton _ _, ?_⟩
    intro earlier hearlier later hlater heq
    rw [List.mem_singleton.mp hlater] at heq ⊢
    obtain ⟨row, hrow, hle⟩ := h.bound earlier hearlier
    rw [heq, ← hid, hvalid.found, Option.some.injEq] at hrow
    subst hrow
    omega
  · intro id attemptNo found hfound
    rcases hvalid.kind.attempts_cases hfound with ⟨old, hold, hsame⟩ | ⟨hkey, _⟩
    · obtain ⟨earlier, hearlier, hjob, hn, hcarries⟩ := h.attempt id attemptNo old hold
      exact ⟨earlier, List.mem_append_left _ hearlier, hjob, hn, hcarries.same hsame⟩
    · obtain ⟨rfl, rfl⟩ := Prod.mk.inj hkey
      rw [hid, hnumber] at hfound
      rw [hfound, Option.some.injEq] at hattempt
      subst hattempt
      exact ⟨lease, List.mem_append_right _ (List.mem_singleton_self lease), hid.symm,
        hnumber.symm, ⟨hworker, hgeneration, htoken⟩⟩

theorem Recorded.extend (h : Recorded sha256 grants yard)
    (hgrants : Grants policy sha256 leases yard yard') :
    Recorded sha256 (grants ++ leases) yard' := by
  induction hgrants generalizing grants with
  | nil => simpa using h
  | cons head _ ih =>
    have hrest := ih (h.granted head)
    rwa [List.append_assoc] at hrest

def replyLeases : Except Error Reply → List Lease
  | .ok (.leases leases) => leases
  | _ => []

def leasesGranted (env : Env) (store : StoreState) (call : Call) : List Lease :=
  match call.op with
  | .acquire .. => replyLeases (step env store call).1
  | _ => []

def activityGrants (env : Env) (store : StoreState) : Activity → List Lease
  | .call call => leasesGranted env store call
  | _ => []

def grantHistory (env : Env) : StoreState → List Activity → List Lease
  | _, [] => []
  | store, activity :: rest =>
    activityGrants env store activity ++ grantHistory env (advance env store activity) rest

theorem replyLeases_early (h : (Op.acquire request tokens).early = some reply) :
    replyLeases reply = [] := by
  obtain ⟨result, hresult, rfl⟩ := Option.map_eq_some_iff.mp h
  unfold AcquireRequest.early at hresult
  split at hresult
  · cases hresult
    rfl
  split at hresult
  · cases hresult
    rfl
  split at hresult
  · cases hresult
    rfl
  split at hresult
  · cases hresult
    rfl
  · cases hresult

theorem acquire_grants (store : StoreState) (request : AcquireRequest) (tokens : Nat → Entropy)
    (reading : Reading) :
    Grants anyPolicy env.sha256
      (replyLeases (execute env store ⟨.acquire request tokens, reading⟩).1) (yardOf store.db)
      (yardOf (execute env store ⟨.acquire request tokens, reading⟩).2.db) := by
  unfold execute
  cases hearly : (Op.acquire request tokens).early with
  | some reply =>
    rw [replyLeases_early hearly]
    exact .nil _
  | none =>
    have hcommit := commit_cases
      ((Op.acquire request tokens).program env store.options (store.clock.writeTime reading)) store.db
    rcases hcommit with ⟨reply, db', hrun, hcommit⟩ | ⟨error, hcommit⟩
    · obtain ⟨leases, between, hacquire, hpure⟩ := bind_ok hrun
      obtain ⟨rfl, rfl⟩ := pure_ok hpure
      change Grants anyPolicy env.sha256 (replyLeases (commit _ store.db).1) _
        (yardOf (commit _ store.db).2)
      rw [hcommit]
      exact acquire_any hacquire
    · change Grants anyPolicy env.sha256 (replyLeases (commit _ store.db).1) _
        (yardOf (commit _ store.db).2)
      rw [hcommit]
      exact .nil _

theorem leasesGranted_cases (env : Env) (store : StoreState) (request : AcquireRequest)
    (tokens : Nat → Entropy) (reading : Reading) :
    leasesGranted env store ⟨.acquire request tokens, reading⟩ = [] ∨
      ∃ db', acquire env.sha256 request tokens (store.clock.writeTime reading) store.db =
        .ok (leasesGranted env store ⟨.acquire request tokens, reading⟩) db' := by
  change replyLeases (step env store ⟨.acquire request tokens, reading⟩).1 = [] ∨ ∃ db', _ =
    EStateM.Result.ok (replyLeases (step env store ⟨.acquire request tokens, reading⟩).1) db'
  cases hearly : (Op.acquire request tokens).early with
  | some reply =>
    left
    change replyLeases (execute env store ⟨.acquire request tokens, reading⟩).1 = []
    unfold execute
    rw [hearly]
    exact replyLeases_early hearly
  | none =>
    cases hreply : (step env store ⟨.acquire request tokens, reading⟩).1 with
    | error error => exact .inl rfl
    | ok reply =>
      have hrun := program_of_step (fun _ => Op.noConfusion) hearly rfl hreply
      obtain ⟨leases, db', hacquire, hpure⟩ := bind_ok hrun
      obtain ⟨rfl, _⟩ := pure_ok hpure
      exact .inr ⟨db', hacquire⟩

theorem exists_acquire (h : lease ∈ leasesGranted env store ⟨.acquire request tokens, reading⟩) :
    ∃ leases db', acquire env.sha256 request tokens (store.clock.writeTime reading) store.db =
      .ok leases db' ∧ lease ∈ leases := by
  rcases leasesGranted_cases env store request tokens reading with hnone | ⟨db', hacquire⟩
  · rw [hnone] at h
    exact (List.not_mem_nil h).elim
  · exact ⟨_, db', hacquire, h⟩

theorem leasesGranted_of_quiet (store : StoreState) (h : grantsLeases call.op = false) :
    leasesGranted env store call = [] := by
  unfold leasesGranted
  cases hop : call.op with
  | acquire =>
    rw [hop] at h
    cases h
  | _ => rfl

theorem Recorded.call {store : StoreState} {call : Call} (sound : Sound (yardOf store.db))
    (h : Recorded env.sha256 grants (yardOf store.db)) :
    Recorded env.sha256 (grants ++ leasesGranted env store call)
      (yardOf (step env store call).2.db) := by
  cases hgrants : grantsLeases call.op with
  | true =>
    obtain ⟨op, reading⟩ := call
    cases op with
    | acquire request tokens =>
      exact h.extend (acquire_grants store request tokens reading)
    | _ => cases hgrants
  | false =>
    have hsteps : ReflTransGen (Step (Policy.during anyPolicy call.op)) (yardOf store.db)
        (yardOf (step env store call).2.db) :=
      step_any sound
    have hquiet : ¬(Policy.during anyPolicy call.op).granting := by
      change ¬grantsLeases call.op = true
      rw [hgrants]
      exact Bool.false_ne_true
    rw [leasesGranted_of_quiet store hgrants, List.append_nil]
    exact h.micros hquiet (micros_of_steps hsteps)

theorem Recorded.advance (sound : Sound (yardOf store.db))
    (h : Recorded env.sha256 grants (yardOf store.db)) :
    Recorded env.sha256 (grants ++ activityGrants env store activity)
      (yardOf (advance env store activity).db) := by
  by_cases hcall : ∃ call, activity = .call call
  · obtain ⟨call, rfl⟩ := hcall
    exact h.call sound
  · have hnone : activityGrants env store activity = [] := by
      cases activity with
      | call call => exact (hcall ⟨call, rfl⟩).elim
      | fireDueCron => rfl
      | deliverRedis => rfl
    obtain ⟨calls, hcalls, heq⟩ :=
      byCalls_advance env store activity fun call heq => hcall ⟨call, heq⟩
    have hsteps : ReflTransGen (Step { granting := False }) (yardOf store.db)
        (yardOf (runCalls env store calls).db) := runCalls_ok sound hcalls
    rw [hnone, List.append_nil, heq]
    exact h.micros id (micros_of_steps hsteps)

theorem Recorded.run (sound : Sound (yardOf store.db))
    (h : Recorded env.sha256 grants (yardOf store.db)) (activities : List Activity) :
    Recorded env.sha256 (grants ++ grantHistory env store activities)
      (yardOf (run env store activities).db) := by
  induction activities generalizing store grants with
  | nil => exact (List.append_nil grants).symm ▸ h
  | cons activity rest ih =>
    have hfirst : ReflTransGen (Step anyPolicy) (yardOf store.db)
        (yardOf (Store.advance env store activity).db) :=
      advance_ok trivial sound (keepsTo_any store activity)
    have hrest := ih (sound.steps hfirst) (h.advance sound)
    rwa [List.append_assoc] at hrest

end RailYard.Refinement
