import RailYard.Refinement.Reaping
import RailYard.Store.Leases

/-! Acquisition as one move for each lease that is granted. The plan and what
is kept of it are invisible in the yard. -/
namespace RailYard.Refinement
open Library Library.Transaction Domain Store
open Scheduler Lifecycle Relation

/-- A granted lease: its job moves, and the attempt that is inserted names the
worker and the token. -/
structure Granted (policy : Policy) (sha256 : Hash) (lease : Lease) (yard yard' : Yard) :
    Prop where
  exists_move : ∃ (move : Move) (attempt : AttemptRow), move.Valid policy yard ∧
    move.apply yard = yard' ∧ move.id = lease.jobID ∧ move.next.state = .scheduled ∧
    move.next.attemptNo = lease.attemptNo ∧ move.next.leaseGeneration = lease.generation ∧
    yard.attempts.get? (lease.jobID, lease.attemptNo) = none ∧
    yard'.attempts.get? (lease.jobID, lease.attemptNo) = some attempt ∧
    attempt.workerID = lease.workerID ∧ attempt.leaseGeneration = lease.generation ∧
    attempt.tokenHash = tokenHash sha256 lease.token

theorem Granted.step (h : Granted policy sha256 lease yard yard') : Step policy yard yard' := by
  obtain ⟨move, _, hvalid, rfl, _, hstate, _⟩ := h.exists_move
  exact Move.step hvalid (by rw [hstate]; rfl)

inductive Grants (policy : Policy) (sha256 : Hash) : List Lease → Yard → Yard → Prop
  | nil (yard : Yard) : Grants policy sha256 [] yard yard
  | cons {lease : Lease} {leases : List Lease} {yard yard' yard'' : Yard}
      (head : Granted policy sha256 lease yard yard')
      (tail : Grants policy sha256 leases yard' yard'') :
      Grants policy sha256 (lease :: leases) yard yard''

theorem Grants.steps (h : Grants policy sha256 leases yard yard') :
    ReflTransGen (Step policy) yard yard' := by
  induction h with
  | nil => exact .refl
  | cons head _ ih => exact .head head.step ih

theorem Grants.eq_of_nil (h : Grants policy sha256 [] yard yard') : yard' = yard := by
  cases h
  rfl

theorem insertAttempt_ok (h : insertAttempt jobID attemptNo row db = .ok () db') :
    (yardOf db).attempts.get? (jobID, attemptNo) = none ∧
      yardOf db' = { yardOf db with
        attempts := (yardOf db).attempts.insert (jobID, attemptNo) row } := by
  obtain ⟨_, _, hquery, h⟩ := bind_ok h
  obtain ⟨_, rfl⟩ := query_ok hquery
  obtain ⟨_, h⟩ := require_bind h
  obtain ⟨habsent, rfl⟩ := insert_ok h
  exact ⟨habsent, rfl⟩

def leasedRow (now : Time) (row : JobRow) : JobRow :=
  { row with
    state := .scheduled
    attemptNo := row.attemptNo + 1
    leaseGeneration := row.leaseGeneration + 1
    stateVersion := row.stateVersion + 1
    readySeq := 0
    recoveryPending := false
    updatedAt := timeToDB now }

def leasedAttempt (sha256 : Hash) (request : AcquireRequest) (now : Time) (token : Entropy)
    (row : JobRow) : AttemptRow where
  workerID := request.workerID
  leaseGeneration := row.leaseGeneration + 1
  tokenHash := tokenHash sha256 (newID token)
  state := .leased
  leasedAt := timeToDB now
  heartbeatAt := timeToDB now
  expiresAt := timeToDB (now + request.leaseTTL)

def leaseMove (yard : Yard) (now : Time) (entry : String × JobRow) (attempt : AttemptRow) :
    Move where
  id := entry.1
  row := entry.2
  next := leasedRow now entry.2
  eventType := .leaseAcquired
  attempts := yard.attempts.insert (entry.1, entry.2.attemptNo + 1) attempt
  readySeq := yard.readySeq

theorem leaseMove_delta {entry : String × JobRow} {attempt : AttemptRow}
    (pending : entry.2.state = .pending) :
    (leaseMove yard now entry attempt).delta = entry.2.slotCost := by
  unfold Move.delta leaseMove
  rw [slots_of_leased rfl, slots_of_unleased (by rw [pending]; rfl), sub_zero]
  rfl

theorem scheduleCandidate_move {entry : String × JobRow} (granting : policy.granting)
    (allows : policy.Allows .acquire) (tracked : Tracked db entry)
    (h : scheduleCandidate sha256 request now token (leaseCandidate entry) db = .ok lease db') :
    (leaseMove (yardOf db) now entry (leasedAttempt sha256 request now token entry.2)).Valid
      policy (yardOf db) ∧
    (leaseMove (yardOf db) now entry (leasedAttempt sha256 request now token entry.2)).apply
      (yardOf db) = yardOf db' ∧
    (yardOf db).attempts.get? (entry.1, entry.2.attemptNo + 1) = none ∧
    lease.jobID = entry.1 ∧ lease.attemptNo = entry.2.attemptNo + 1 ∧
    lease.generation = entry.2.leaseGeneration + 1 ∧ lease.workerID = request.workerID ∧
    lease.token = newID token := by
  obtain ⟨_, db1, hreserve, h⟩ := bind_ok h
  obtain ⟨rfl, h⟩ := require_bind h
  obtain ⟨hyard1, limits, hlimits, hcapacity⟩ := reserveSlots_ok hreserve
  obtain ⟨row, db2, hrow, hguard, hyard2, h⟩ := updateJob_ok h
  obtain ⟨_, db3, hattempt, h⟩ := bind_ok h
  obtain ⟨habsent, hyard3⟩ := insertAttempt_ok hattempt
  obtain ⟨_, db4, hevent, h⟩ := bind_ok h
  have hyard4 := addEvent_ok hevent
  obtain ⟨rfl, rfl⟩ := pure_ok h
  rw [hyard1] at hrow
  change db.jobs.get? entry.1 = some row at hrow
  simp only [Bool.and_eq_true, decide_eq_true_eq] at hguard
  obtain ⟨⟨hpending, hready⟩, hversion⟩ := hguard
  obtain rfl : row = entry.2 := tracked.eq hrow hversion
  rw [hyard2, hyard1] at habsent
  change (yardOf db).attempts.get? (entry.1, entry.2.attemptNo + 1) = none at habsent
  refine ⟨?_, ?_, habsent, rfl, rfl, rfl, rfl, rfl⟩
  · exact {
      found := hrow
      alive := by
        change entry.2.state.terminal = false
        rw [hpending]
        rfl
      identity := ⟨rfl, rfl, rfl, rfl⟩
      version := rfl
      ended := fun hended => by cases hended
      event := rfl
      released := fun hreleased => by cases hreleased
      punctual := fun _ _ _ => rfl
      readiness := .dropped JobState.noConfusion rfl rfl
      budget := .other EventType.noConfusion EventType.noConfusion JobState.noConfusion
        fun _ hidle => by cases hidle
      edge := by
        change policy.edges entry.1 _ entry.2.state _
        rw [hpending]
        exact allows _ _ _ _ (.leased _)
      kind := by
        refine .lease (leasedAttempt sha256 request now token entry.2) hpending hready rfl rfl rfl
          rfl rfl ?_ rfl granting rfl
        intro found hfound
        change (yardOf db).tenants.get? entry.2.tenantID = some limits at hlimits
        rw [show (yardOf db).tenants.get? entry.2.tenantID = some found from hfound,
          Option.some.injEq] at hlimits
        rw [hlimits]
        exact hcapacity }
  · rw [Move.apply_of_alive _ rfl, leaseMove_delta hpending, hyard4, hyard3, hyard2, hyard1]
    rfl

theorem scheduleCandidate_ok {entry : String × JobRow} (granting : policy.granting)
    (allows : policy.Allows .acquire) (tracked : Tracked db entry)
    (h : scheduleCandidate sha256 request now token (leaseCandidate entry) db = .ok lease db') :
    Granted policy sha256 lease (yardOf db) (yardOf db') := by
  obtain ⟨hvalid, happly, habsent, hid, hnumber, hgeneration, hworker, htoken⟩ :=
    scheduleCandidate_move granting allows tracked h
  rw [← hid, ← hnumber] at habsent
  refine ⟨_, leasedAttempt sha256 request now token entry.2, hvalid, happly, hid.symm, rfl,
    hnumber.symm, hgeneration.symm, habsent, ?_, hworker.symm, hgeneration.symm,
    by rw [htoken]; rfl⟩
  rw [hid, hnumber] at habsent ⊢
  rw [← happly]
  exact Table.get?_insert_self _ _ habsent

theorem scheduleCandidate_lease
    (h : scheduleCandidate sha256 request now token candidate db = .ok lease db') :
    lease.jobID = candidate.jobID ∧ lease.slotCost = candidate.slotCost ∧
      lease.workerID = request.workerID ∧ lease.expiresAt = now + request.leaseTTL := by
  iterate 6 obtain ⟨_, _, _, h⟩ := bind_ok h
  obtain ⟨rfl, _⟩ := pure_ok h
  exact ⟨rfl, rfl, rfl, rfl⟩

theorem grantLease_ok {plan : SchedulePlan}
    (h : grantLease sha256 request now plan token grant db = .ok lease db') :
    ∃ candidate ∈ plan.candidates, candidate.jobID = grant.jobID ∧
      scheduleCandidate sha256 request now token candidate db = .ok lease db' := by
  unfold grantLease at h
  cases hfound : plan.candidates.find? fun candidate => candidate.jobID = grant.jobID with
  | none =>
    rw [hfound] at h
    exact (throw_ok h).elim
  | some candidate =>
    rw [hfound] at h
    have hid := List.find?_some hfound
    exact ⟨candidate, List.mem_of_find?_eq_some hfound, of_decide_eq_true hid, h⟩

theorem grantLeases_ok {plan : SchedulePlan} {ranked : List (String × JobRow)} {index : Nat}
    (granting : policy.granting) (allows : policy.Allows .acquire)
    (candidates : plan.candidates = ranked.map leaseCandidate)
    (tracked : ∀ entry ∈ ranked, Tracked db entry)
    (h : grantLeases sha256 request now plan tokens index grants db = .ok leases db') :
    Grants policy sha256 leases (yardOf db) (yardOf db') := by
  induction grants generalizing index db leases with
  | nil =>
    obtain ⟨rfl, rfl⟩ := pure_ok h
    exact .nil _
  | cons grant rest ih =>
    obtain ⟨lease, db1, hlease, h⟩ := bind_ok h
    obtain ⟨others, db2, hothers, h⟩ := bind_ok h
    obtain ⟨rfl, rfl⟩ := pure_ok h
    obtain ⟨candidate, hmem, _, hlease⟩ := grantLease_ok hlease
    rw [candidates, List.mem_map] at hmem
    obtain ⟨entry, hentry, rfl⟩ := hmem
    have hgranted := scheduleCandidate_ok granting allows (tracked entry hentry) hlease
    have hevolves := evolves_of_micros hgranted.step.micros
    exact .cons hgranted
      (ih (fun other hother => (tracked other hother).evolves hevolves) hothers)

theorem mem_rankedJobs {entry : String × JobRow} (h : entry ∈ rankedJobs db now limit) :
    entry ∈ db.jobs.rows ∧ isReady db now entry = true := by
  unfold rankedJobs at h
  rw [List.mem_insertionSort, List.mem_filter, List.mem_filter] at h
  exact h.1

def snapshotOf (sha256 : Hash) (request : AcquireRequest) (now : Time) (db : Database) :
    Snapshot where
  sequence := db.schedulerSeq + 1
  logicalTimeNS := timeToDB now
  workerSlots := offeredSlots (rankedJobs db now request.limit) request.availableSlots
    request.recoveryReserve
  batchLimit := request.limit
  cursor := db.schedulerCursor
  queues := buildQueues db (rankedJobs db now request.limit)
  configHash := hexDigest sha256 algorithmVersion
  algorithm := algorithmVersion

def Idle (request : AcquireRequest) (now : Time) (db : Database) : Prop :=
  (rankedJobs db now request.limit).isEmpty ∨
    offeredSlots (rankedJobs db now request.limit) request.availableSlots
      request.recoveryReserve = 0

instance (request : AcquireRequest) (now : Time) (db : Database) :
    Decidable (Idle request now db) := by
  unfold Idle
  infer_instance

theorem buildSchedulePlan_eq (sha256 : Hash) (request : AcquireRequest) (now : Time)
    (db : Database) :
    buildSchedulePlan sha256 now request.availableSlots request.limit request.recoveryReserve db =
      if Idle request now db then .ok none db
      else match Scheduler.decide (snapshotOf sha256 request now db) with
        | .ok decision =>
          .ok (some ⟨snapshotOf sha256 request now db, decision,
            (rankedJobs db now request.limit).map leaseCandidate⟩)
            { db with schedulerSeq := db.schedulerSeq + 1 }
        | .error error => .error error { db with schedulerSeq := db.schedulerSeq + 1 } := by
  unfold buildSchedulePlan
  change (if _ ∨ _ then (_ : Tx (Option SchedulePlan)) else _) db = _
  by_cases hidle : Idle request now db
  · rw [if_pos hidle]
    exact congrFun (if_pos hidle) db
  · rw [if_neg hidle]
    refine (congrFun (if_neg hidle) db).trans ?_
    change (lift (Scheduler.decide (snapshotOf sha256 request now db)) >>= _ : Tx _) _ = _
    cases Scheduler.decide (snapshotOf sha256 request now db) <;> rfl

theorem updateDeficit_ok (h : updateDeficit now queue db = .ok () db') :
    yardOf db' = yardOf db := by
  obtain ⟨_, _, hupdate⟩ := bind_pure_ok h
  rcases update_ok hupdate with ⟨_, _, _, _, rfl⟩ | ⟨_, _, rfl⟩
  · apply Yard.ext <;> try rfl
    have hslots := activeSlots_modify db.queueState (queue.tenantID, queue.queue)
      (fun row => { row with deficit := queue.deficit, updatedAt := timeToDB now }) 0
      fun row => (add_zero row.activeSlots).symm
    simp only [add_zero, Option.map_id', Function.update_eq_self] at hslots
    exact hslots
  · rfl

theorem persistSchedulePlan_ok (h : persistSchedulePlan sha256 plan now db = .ok () db') :
    yardOf db' = yardOf db := by
  obtain ⟨_, db1, hdeficits, h⟩ := bind_ok h
  have hyard : yardOf db1 = yardOf db :=
    forM_ok (motive := fun _ state => yardOf state = yardOf db)
      (fun _ _ _ _ heq hbody => (updateDeficit_ok hbody).trans heq) rfl hdeficits
  obtain ⟨_, _, hcursor, h⟩ := bind_ok h
  rw [← mutate_ok hcursor] at h
  replace h := query_bind h
  obtain ⟨_, _, h⟩ := lift_bind h
  replace h := query_bind h
  obtain ⟨_, h⟩ := require_bind h
  obtain ⟨_, rfl⟩ := insert_ok h
  exact hyard

def planFor (sha256 : Hash) (request : AcquireRequest) (now : Time) (db : Database)
    (decision : Decision) : SchedulePlan where
  input := snapshotOf sha256 request now db
  decision := decision
  candidates := (rankedJobs db now request.limit).map leaseCandidate

theorem acquire_cases (h : acquire sha256 request tokens now db = .ok leases db') :
    (Idle request now db ∧ leases = [] ∧ db' = db) ∨
      ∃ decision db1,
        Scheduler.decide (snapshotOf sha256 request now db) = .ok decision ∧
        grantLeases sha256 request now (planFor sha256 request now db decision) tokens 0
          decision.grants { db with schedulerSeq := db.schedulerSeq + 1 } = .ok leases db1 ∧
        persistSchedulePlan sha256 (planFor sha256 request now db decision) now db1 =
          .ok () db' := by
  obtain ⟨found, before, hplan, h⟩ := bind_ok h
  rw [buildSchedulePlan_eq] at hplan
  split at hplan
  · rename_i hidle
    obtain ⟨rfl, rfl⟩ := pure_ok hplan
    obtain ⟨rfl, rfl⟩ := pure_ok h
    exact .inl ⟨hidle, rfl, rfl⟩
  · split at hplan
    · next decision hdecision =>
      obtain ⟨rfl, rfl⟩ := pure_ok hplan
      obtain ⟨granted, db1, hgrants, h⟩ := bind_ok h
      obtain ⟨_, rfl, hpersist⟩ := bind_pure_ok h
      exact .inr ⟨decision, db1, hdecision, hgrants, hpersist⟩
    · cases hplan

theorem tracked_rankedJobs {entry : String × JobRow} (h : entry ∈ rankedJobs db now limit) :
    Tracked db entry :=
  ⟨entry.2, (db.jobs.mem_rows_iff entry.1 entry.2).mp (mem_rankedJobs h).1, .refl entry.2⟩

theorem acquire_ok (granting : policy.granting) (allows : policy.Allows .acquire)
    (h : acquire sha256 request tokens now db = .ok leases db') :
    Grants policy sha256 leases (yardOf db) (yardOf db') := by
  rcases acquire_cases h with ⟨_, rfl, rfl⟩ | ⟨decision, db1, _, hgrants, hpersist⟩
  · exact .nil _
  · rw [persistSchedulePlan_ok hpersist]
    have htracked : ∀ entry ∈ rankedJobs db now request.limit,
        Tracked { db with schedulerSeq := db.schedulerSeq + 1 } entry :=
      fun entry hentry => tracked_rankedJobs hentry
    have hall := grantLeases_ok granting allows rfl htracked hgrants
    exact hall

theorem acquire_any (h : acquire sha256 request tokens now db = .ok leases db') :
    Grants anyPolicy sha256 leases (yardOf db) (yardOf db') :=
  acquire_ok trivial (anyPolicy_allows .acquire) h

end RailYard.Refinement
