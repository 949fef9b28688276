import RailYard.Refinement.Maintenance

/-! The recovery of expired leases as moves. -/
namespace RailYard.Refinement
open Library Library.Transaction Domain Store
open Lifecycle Relation

def fencedYard (yard : Yard) (id : String) (row : JobRow) (edit : AttemptRow → AttemptRow) : Yard :=
  { yard with attempts := yard.attempts.modify (id, row.attemptNo) edit }.shift
    row.tenantID row.queueName (-row.slotCost)

structure Closes (edit : AttemptRow → AttemptRow) : Prop where
  closes : ∀ attempt, (edit attempt).state.isOpen = false
  keeps : ∀ attempt, SameHolder attempt (edit attempt)

structure Released (row next : JobRow) : Prop where
  identity : SameIdentity row next
  lease : SameLease row next
  version : next.stateVersion = row.stateVersion + 1
  idle : next.state.leased = false
  ended : next.state.terminal = true → next.terminalAt.isSome

theorem closing_valid {yard : Yard} {move : Move} (found : yard.jobs.get? move.id = some move.row)
    (leased : move.row.state.leased = true) (released : Released move.row move.next)
    (event : EventType.ofMove move.eventType = true)
    (unreleased : move.eventType ≠ .dependencyReleased) (readiness : move.Readiness yard)
    (budget : move.Budget policy)
    (edge : policy.edges move.id move.eventType move.row.state move.next.state)
    (closes : Closes edit)
    (edited : move.attempts = yard.attempts.modify (move.id, move.row.attemptNo) edit) :
    move.Valid policy yard where
  found := found
  alive := by
    cases hstate : move.row.state <;> rw [hstate] at leased <;> first | rfl | cases leased
  identity := released.identity
  version := released.version
  ended := released.ended
  event := event
  released := fun hreleased => (unreleased hreleased).elim
  punctual := fun hunleased => by rw [leased] at hunleased; cases hunleased
  readiness := readiness
  budget := budget
  edge := edge
  kind := .close edit leased released.idle released.lease closes.closes closes.keeps edited

theorem closing_delta {move : Move} (leased : move.row.state.leased = true)
    (idle : move.next.state.leased = false) : move.delta = -move.row.slotCost := by
  unfold Move.delta
  rw [slots_of_unleased idle, slots_of_leased leased, zero_sub]

def expiredEdit (now : Time) (attempt : AttemptRow) : AttemptRow :=
  { attempt with
    state := .expired, completedAt := some (timeToDB now), failure := some leaseExpired }

theorem expiredEdit_closes (now : Time) : Closes (expiredEdit now) :=
  ⟨fun _ => rfl, fun _ => ⟨rfl, rfl, rfl⟩⟩

variable {before : Database} {id : String} {expired : ExpiredAttempt}

structure Reaped (policy : Policy) (now : Time) (yard : Yard) (id : String)
    (expired : ExpiredAttempt) (move : Move) : Prop where
  valid : move.Valid policy yard
  id_eq : move.id = id
  row : move.row = expired.job
  attempts : move.attempts =
    yard.attempts.modify (id, expired.job.attemptNo) (expiredEdit now)

/-- An expired lease comes back: its job is ready again or, when no attempt is
left, fails together with everything below it. -/
inductive Recovery (policy : Policy) (now : Time) (id : String) (expired : ExpiredAttempt)
    (yard yard' : Yard) : Prop
  | requeued (move : Move) (reaped : Reaped policy now yard id expired move)
      (left : expired.exhausted = false) (pending : move.next.state = .pending)
      (happly : move.apply yard = yard')
  | buried (move : Move) (reaped : Reaped policy now yard id expired move)
      (exhausted : expired.exhausted = true) (dead : move.next.state = .deadLetter)
      (cascade : ReflTransGen (CascadeMove policy move.id) (move.apply yard) yard')
      (complete : ∀ id row, yard'.Descendant move.id id → yard'.jobs.get? id = some row →
        row.state.terminal = true)

theorem Recovery.step (h : Recovery policy now id expired yard yard') : Step policy yard yard' := by
  cases h with
  | requeued move reaped _ pending happly =>
    rw [← happly]
    exact Move.step reaped.valid (by rw [pending]; rfl)
  | buried move reaped _ _ cascade complete => exact .fail move reaped.valid cascade complete

namespace Recovery

variable (h : Recovery policy now id expired yard yard')

include h

theorem exists_reaped : ∃ move, Reaped policy now yard id expired move := by
  cases h with
  | requeued move reaped => exact ⟨move, reaped⟩
  | buried move reaped => exact ⟨move, reaped⟩

theorem edges : yard'.edges = yard.edges := by
  cases h with
  | requeued _ _ _ _ happly => rw [← happly]; rfl
  | buried _ _ _ _ cascade => exact (edges_of_cascade cascade).trans rfl

theorem attempts :
    yard'.attempts = yard.attempts.modify (id, expired.job.attemptNo) (expiredEdit now) := by
  cases h with
  | requeued _ reaped _ _ happly =>
    rw [← happly]
    exact reaped.attempts
  | buried _ reaped _ _ cascade => exact (attempts_of_cascade cascade).trans reaped.attempts

theorem jobs_cases (hrow : yard'.jobs.get? other = some row) :
    (other ≠ id ∧ yard.jobs.get? other = some row) ∨ row.state.leased = false ∧
      (other = id ∨ expired.exhausted = true ∧ yard.Descendant id other) := by
  cases h with
  | requeued move reaped _ pending happly =>
    rw [← happly] at hrow
    rcases Move.get?_apply_cases reaped.valid hrow with ⟨heq, rfl⟩ | ⟨hne, hold⟩
    · exact .inr ⟨by rw [pending]; rfl, .inl (heq.trans reaped.id_eq)⟩
    · exact .inl ⟨reaped.id_eq ▸ hne, hold⟩
  | buried move reaped exhausted dead cascade _ =>
    rcases jobs_of_cascade cascade hrow with hmiddle | ⟨hdescendant, hstate⟩
    · rcases Move.get?_apply_cases reaped.valid hmiddle with ⟨heq, rfl⟩ | ⟨hne, hold⟩
      · exact .inr ⟨by rw [dead]; rfl, .inl (heq.trans reaped.id_eq)⟩
      · exact .inl ⟨reaped.id_eq ▸ hne, hold⟩
    · exact .inr ⟨by rw [hstate]; rfl, .inr ⟨exhausted, reaped.id_eq ▸ hdescendant⟩⟩

theorem untouched (hrow : yard.jobs.get? other = some row) (hne : other ≠ id)
    (hoff : expired.exhausted = true → ¬yard.Descendant id other) :
    yard'.jobs.get? other = some row := by
  obtain ⟨row', hrow', _⟩ := (evolves_of_micros h.step.micros).jobs other row hrow
  rcases h.jobs_cases hrow' with ⟨_, hold⟩ | ⟨_, heq | ⟨hexhausted, hdescendant⟩⟩
  · rwa [hold.symm.trans hrow] at hrow'
  · exact (hne heq).elim
  · exact (hoff hexhausted hdescendant).elim

theorem terminal_below
    (hexhausted : expired.exhausted = true) (hdescendant : yard.Descendant id other)
    (hrow : yard'.jobs.get? other = some row) :
    row.state.terminal = true := by
  rw [← descendant_of_edges h.edges] at hdescendant
  cases h with
  | requeued _ _ left => rw [hexhausted] at left; cases left
  | buried _ reaped _ _ _ complete =>
    exact complete other row (reaped.id_eq.symm ▸ hdescendant) hrow

end Recovery

theorem current_iff {row : JobRow} : expired.current row = true ↔
    row.attemptNo = expired.attemptNo ∧ row.leaseGeneration = expired.attempt.leaseGeneration ∧
      row.stateVersion = expired.job.stateVersion ∧ row.state.leased = true := by
  simp only [ExpiredAttempt.current, Bool.and_eq_true, decide_eq_true_eq, and_assoc]

theorem requeueExpired_ok (allows : policy.Allows .reap) (tracked : Tracked before (id, expired.job))
    (left : expired.job.attemptNo < expired.job.retry.maxAttempts)
    (hyard : yardOf db = fencedYard (yardOf before) id expired.job (expiredEdit now))
    (h : requeueExpired now id expired db = .ok () db') :
    ∃ move, Reaped policy now (yardOf before) id expired move ∧ move.next.state = .pending ∧
      move.apply (yardOf before) = yardOf db' := by
  obtain ⟨seq, db1, hseq, h⟩ := bind_ok h
  obtain ⟨rfl, hyard1⟩ := nextReadySeq_ok hseq
  obtain ⟨row, db2, hrow, hguard, hyard2, h⟩ := updateJob_ok h
  have hyard3 := addEvent_ok h
  rw [hyard1, hyard] at hrow
  change before.jobs.get? id = some row at hrow
  obtain ⟨_, _, hversion, hleased⟩ := current_iff.mp hguard
  obtain rfl : row = expired.job := tracked.eq hrow hversion
  let move : Move := {
    id := id
    row := expired.job
    next := { expired.job with
      state := .pending
      stateVersion := expired.job.stateVersion + 1
      availableAt := timeToDB now
      readySeq := (yardOf before).readySeq + 1
      recoveryPending := true
      updatedAt := timeToDB now
      failure := some leaseExpired }
    eventType := .leaseReaped
    attempts := (yardOf before).attempts.modify (id, expired.job.attemptNo) (expiredEdit now)
    readySeq := (yardOf before).readySeq + 1 }
  have hbudget : move.Budget policy := {
    left := fun _ _ _ _ => left
    failed := fun hcompleted => by cases hcompleted
    expired := fun _ => ⟨JobState.noConfusion, fun hspent => absurd left (not_lt.mpr hspent)⟩
    backoff := fun hretrying => by cases hretrying }
  have hvalid : move.Valid policy (yardOf before) :=
    closing_valid hrow hleased
      ⟨⟨rfl, rfl, rfl, rfl⟩, ⟨rfl, rfl⟩, rfl, rfl, fun hended => by cases hended⟩
      rfl EventType.noConfusion (.drawn rfl rfl rfl) hbudget
      (allows _ _ _ _ (.requeued _ hleased)) (expiredEdit_closes now) rfl
  have hdelta : move.delta = -expired.job.slotCost := closing_delta hleased rfl
  have happly : move.apply (yardOf before) = yardOf db' := by
    rw [Move.apply_of_alive _ rfl, hdelta, hyard3, hyard2, hyard1, hyard]
    rfl
  exact ⟨move, ⟨hvalid, rfl, rfl, rfl⟩, rfl, happly⟩

theorem deadLetterExpired_ok (allows : policy.Allows .reap) (tracked : Tracked before (id, expired.job))
    (exhausted : expired.exhausted = true)
    (hyard : yardOf db = fencedYard (yardOf before) id expired.job (expiredEdit now))
    (h : deadLetterExpired now id expired db = .ok () db') :
    ∃ move, Reaped policy now (yardOf before) id expired move ∧
      move.next.state = .deadLetter ∧ yardOf db' = move.apply (yardOf before) := by
  obtain ⟨row, db1, hrow, hguard, hyard1, h⟩ := updateJob_ok h
  obtain ⟨_, db2, hcompletion, h⟩ := bind_ok h
  obtain ⟨_, hyard2⟩ := insertCanonicalCompletion_ok hcompletion
  obtain ⟨_, db3, hdead, h⟩ := bind_ok h
  have hyard3 := insertDeadLetter_ok hdead
  have hyard4 := addEvent_ok h
  rw [hyard] at hrow
  change before.jobs.get? id = some row at hrow
  obtain ⟨hattemptNo, _, hversion, hleased⟩ := current_iff.mp hguard
  obtain rfl : row = expired.job := tracked.eq hrow hversion
  let move : Move := {
    id := id
    row := expired.job
    next := { expired.job with
      state := .deadLetter
      stateVersion := expired.job.stateVersion + 1
      readySeq := 0
      updatedAt := timeToDB now
      terminalAt := some (timeToDB now)
      failure := some leaseExpired }
    eventType := .leaseReaped
    attempts := (yardOf before).attempts.modify (id, expired.job.attemptNo) (expiredEdit now)
    readySeq := (yardOf before).readySeq }
  have hspent : expired.job.retry.maxAttempts ≤ expired.job.attemptNo := by
    rw [hattemptNo]
    exact of_decide_eq_true exhausted
  have hbudget : move.Budget policy := {
    left := fun _ _ hlive => by cases hlive
    failed := fun hcompleted => by cases hcompleted
    expired := fun _ => ⟨fun _ => hspent, fun _ => rfl⟩
    backoff := fun hretrying => by cases hretrying }
  have hvalid : move.Valid policy (yardOf before) :=
    closing_valid hrow hleased ⟨⟨rfl, rfl, rfl, rfl⟩, ⟨rfl, rfl⟩, rfl, rfl, fun _ => rfl⟩
      rfl EventType.noConfusion (.dropped JobState.noConfusion rfl rfl) hbudget
      (allows _ _ _ _ (.expired _ hleased)) (expiredEdit_closes now) rfl
  have hdelta : move.delta = -expired.job.slotCost := closing_delta hleased rfl
  have happly : yardOf db' = move.apply (yardOf before) := by
    rw [Move.apply_of_dead _ rfl, hdelta, hyard4, hyard3, hyard2, hyard1, hyard, ← hattemptNo]
    rfl
  exact ⟨move, ⟨hvalid, rfl, rfl, rfl⟩, rfl, happly⟩

theorem current_of_reaped (h : (if expired.exhausted then do
        deadLetterExpired now id expired
        failDescendants id now
      else requeueExpired now id expired) db = .ok () db') :
    ∃ row, (yardOf db).jobs.get? id = some row ∧ expired.current row = true := by
  split at h
  · obtain ⟨_, _, hdead, _⟩ := bind_ok h
    obtain ⟨row, _, hrow, hguard, _⟩ := updateJob_ok hdead
    exact ⟨row, hrow, hguard⟩
  · obtain ⟨_, _, hseq, h⟩ := bind_ok h
    obtain ⟨row, _, hrow, hguard, _⟩ := updateJob_ok h
    rw [(nextReadySeq_ok hseq).2] at hrow
    exact ⟨row, hrow, hguard⟩

theorem expire_ok (fences : Fences (yardOf before)) (hrow : before.jobs.get? id = some expired.job)
    (hcurrent : expired.current expired.job = true)
    (hattempt : (update attempts (id, expired.attemptNo)
      (fun row => row.leaseGeneration = expired.attempt.leaseGeneration && row.state.isOpen)
      (expiredEdit now) : Tx Bool) before = .ok affected middle)
    (hrelease : releaseSlots expired.job.tenantID expired.job.queueName expired.job.slotCost now
      middle = .ok () db) :
    yardOf db = fencedYard (yardOf before) id expired.job (expiredEdit now) := by
  obtain ⟨hattemptNo, hgeneration, _, hleased⟩ := current_iff.mp hcurrent
  obtain ⟨attempt, hfound, hopen, hheld⟩ := fences.openAttempt hrow hleased
  have hattempts : (yardOf before).attempts.modify (id, expired.attemptNo)
      (fun row => if row.leaseGeneration = expired.attempt.leaseGeneration && row.state.isOpen then
        expiredEdit now row else row) =
      (yardOf before).attempts.modify (id, expired.job.attemptNo) (expiredEdit now) := by
    rw [← hattemptNo]
    apply Table.modify_congr _ hfound
    rw [hopen, hheld, hgeneration]
    simp
  unfold fencedYard
  rw [releaseSlots_ok hrelease, updateAttempt_ok hattempt, ← hattempts]

theorem reapAttempt_ok (allows : policy.Allows .reap) (fences : Fences (yardOf before))
    (tracked : Tracked before (id, expired.job))
    (tidy : policy.tidy → expired.exhausted = true → (yardOf before).Clear id)
    (h : reapAttempt now (id, expired) before = .ok () db') :
    Recovery policy now id expired (yardOf before) (yardOf db') := by
  obtain ⟨_, db1, hattempt, h⟩ := bind_ok h
  obtain ⟨_, db2, hrelease, h⟩ := bind_ok h
  obtain ⟨row, hrow, hcurrent⟩ := current_of_reaped h
  rw [releaseSlots_ok hrelease, updateAttempt_ok hattempt] at hrow
  change before.jobs.get? id = some row at hrow
  obtain ⟨hattemptNo, _, hversion, _⟩ := current_iff.mp hcurrent
  obtain rfl : row = expired.job := tracked.eq hrow hversion
  have hyard := expire_ok fences hrow hcurrent hattempt hrelease
  split at h
  · rename_i hexhausted
    obtain ⟨_, middle, hbury, hfail⟩ := bind_ok h
    obtain ⟨move, hreaped, hdead, happly⟩ := deadLetterExpired_ok allows tracked hexhausted hyard hbury
    rw [← hreaped.id_eq] at tidy hfail
    obtain ⟨hcascade, hcomplete⟩ := cascade_ok (allows.buries rfl) hreaped.valid (by rw [hdead]; rfl) happly
      (fun hpolicy => tidy hpolicy hexhausted) hfail
    exact .buried move hreaped hexhausted hdead hcascade hcomplete
  · rename_i hexhausted
    have hleft : expired.job.attemptNo < expired.job.retry.maxAttempts := by
      rw [hattemptNo]
      exact not_le.mp fun hspent => hexhausted (decide_eq_true hspent)
    obtain ⟨move, hreaped, hpending, happly⟩ := requeueExpired_ok allows tracked hleft hyard h
    exact .requeued move hreaped (Bool.eq_false_iff.mpr hexhausted) hpending happly

theorem reapExpired_ok (quiet : ¬policy.granting) (coherent : Coherent (yardOf db))
    (allows : policy.Allows .reap)
    (tidy : policy.tidy → ∀ id expired, (id, expired) ∈ (expiredLeases db now).take limit.toNat →
      expired.exhausted = true → (yardOf db).Clear id)
    (h : reapExpired now limit db = .ok reaped db') :
    ReflTransGen (Step policy) (yardOf db) (yardOf db') := by
  replace h := query_bind h
  obtain ⟨_, _, hloop⟩ := bind_pure_ok h
  refine forM_reaches ?_ hloop
  rintro ⟨id, expired⟩ hentry before after hreached hbody
  have hmicros := micros_of_steps hreached
  have hexpired := mem_expiredLeases.mp (List.mem_of_mem_take hentry)
  have htracked : Tracked before (id, expired.job) :=
    Tracked.evolves ⟨expired.job, hexpired.job, .refl expired.job⟩ (evolves_of_micros hmicros)
  exact .single (reapAttempt_ok allows (coherent.micros hmicros).fences htracked
    (fun hpolicy hexhausted => .micros coherent.graph quiet hmicros
      fun _ _ => tidy hpolicy id expired hentry hexhausted) hbody).step

end RailYard.Refinement
