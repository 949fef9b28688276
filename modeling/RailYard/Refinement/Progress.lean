import RailYard.Refinement.Reaping

/-! Maintenance that cannot fail: promotion, failure propagation and the
recovery of one lease find every row as they have read it, because the accounts
and the ledger are exact. -/
namespace RailYard.Refinement
open Library Library.Transaction Domain Store
open Lifecycle

variable {id : String}

theorem succeeds_releaseSlots (accounts : Accounts (yardOf db)) (hrow : db.jobs.get? id = some row)
    (hleased : row.state.leased = true) :
    Succeeds (releaseSlots row.tenantID row.queueName row.slotCost now) db := by
  obtain ⟨limits, hlimits, htenant⟩ := accounts.tenant_holds hrow hleased
  obtain ⟨active, hactive, hqueue⟩ := accounts.queue_holds hrow hleased
  obtain ⟨queue, hfound, rfl⟩ := Option.map_eq_some_iff.mp hactive
  exact .update_require hlimits (decide_eq_true htenant)
    (.update_check hfound (decide_eq_true hqueue))

theorem succeeds_insertCompletion {failure : Option Failure}
    (h : (yardOf db).completions.get? id = none) :
    Succeeds (insertCanonicalCompletion id .deadLetter stateVersion attemptNo "" failure now) db := by
  refine .bind (.require rfl) fun _ db1 hrequire => ?_
  rw [← (require_ok hrequire).2]
  exact .insert h

theorem succeeds_insertDeadLetter {failure : Failure} (h : (yardOf db).deadLetters id = false) :
    Succeeds (insertDeadLetter id (some failure) now) db :=
  .insert (Option.not_isSome_iff_eq_none.mp (Bool.eq_false_iff.mp h))

theorem succeeds_settleDead {failure : Failure}
    (hcompletion : (yardOf db).completions.get? id = none)
    (hdead : (yardOf db).deadLetters id = false) (hnext : ∀ db1 db2,
      insertCanonicalCompletion id .deadLetter nextVersion attemptNo "" (some failure) now db =
        .ok () db1 →
      insertDeadLetter id (some failure) now db1 = .ok () db2 → Succeeds next db2) :
    Succeeds (do
      insertCanonicalCompletion id .deadLetter nextVersion attemptNo "" (some failure) now
      insertDeadLetter id (some failure) now
      next) db := by
  refine .bind (succeeds_insertCompletion hcompletion) fun _ db1 hinsert =>
    .bind (succeeds_insertDeadLetter ?_) fun _ db2 => hnext db1 db2 hinsert
  rw [(insertCanonicalCompletion_ok hinsert).2]
  exact hdead

theorem unsettled_of_alive (ledger : Ledger (yardOf db)) (hrow : db.jobs.get? id = some row)
    (halive : row.state.terminal = false) :
    (yardOf db).completions.get? id = none ∧ (yardOf db).deadLetters id = false := by
  have haccounted := ledger.accounted id row hrow
  refine ⟨haccounted.unsettled halive, Bool.eq_false_iff.mpr fun hdead => ?_⟩
  rw [haccounted.deadLetter.mp hdead] at halive
  cases halive

theorem succeeds_failDescendant (coherent : Coherent (yardOf db))
    (hrow : db.jobs.get? id = some row) (halive : row.state.terminal = false) :
    Succeeds (failDescendant root now (id, row)) db := by
  obtain ⟨hcompletion, hdead⟩ := unsettled_of_alive coherent.ledger hrow halive
  refine .bind (.onlyIf fun hleased => succeeds_releaseSlots coherent.accounts hrow hleased)
    fun _ db1 hrelease => ?_
  have hyard1 := releaseHeld_ok hrelease
  have hrow1 : (yardOf db1).jobs.get? id = some row := by
    rw [hyard1]
    exact hrow
  refine .update_require hrow1 (by simp [halive]) ?_
  refine succeeds_settleDead ?_ ?_ fun _ _ _ _ => .mutate _
  · change (yardOf db1).completions.get? id = none
    rw [hyard1]
    exact hcompletion
  · change (yardOf db1).deadLetters id = false
    rw [hyard1]
    exact hdead

theorem fst_ne_of_nodup {ρ : Type} {entry other : String × ρ} {rest : List (String × ρ)}
    (h : ((entry :: rest).map Prod.fst).Nodup) (hother : other ∈ rest) : other.1 ≠ entry.1 := by
  rw [List.map_cons, List.nodup_cons] at h
  intro heq
  exact h.1 (heq ▸ List.mem_map_of_mem hother)

theorem succeeds_failDescendants (coherent : Coherent (yardOf db)) :
    Succeeds (failDescendants root now) db := by
  refine .bind (.query _) fun _ _ hquery => ?_
  obtain ⟨rfl, rfl⟩ := query_ok hquery
  let motive (rest : List (String × JobRow)) (state : Database) : Prop :=
    Coherent (yardOf state) ∧ (rest.map Prod.fst).Nodup ∧
      ∀ child ∈ rest, state.jobs.get? child.1 = some child.2 ∧
        (yardOf state).Descendant root child.1 ∧ child.2.state.terminal = false
  have hstart : motive (failingDescendants db root) db :=
    ⟨coherent, ((List.perm_insertionSort _ _).map Prod.fst).nodup_iff.mpr
      (db.jobs.nodupKeys_filter _), fun _ => mem_failingDescendants.mp⟩
  have hstep : ∀ child rest before, motive (child :: rest) before →
      Succeeds (failDescendant root now child) before ∧
        ∀ after, failDescendant root now child before = .ok () after → motive rest after := by
    rintro child rest before ⟨hcoherent, hnodup, hrows⟩
    obtain ⟨hrow, hbelow, halive⟩ := hrows child (List.mem_cons_self ..)
    refine ⟨succeeds_failDescendant hcoherent hrow halive, fun after hbody => ?_⟩
    obtain ⟨move, hvalid, hid, _, _, happly⟩ := failDescendant_ok ((anyPolicy_allows .reap).buries rfl)
      ⟨child.2, hrow, .refl child.2⟩ hbelow (fun hfalse => hfalse.elim) hbody
    refine ⟨happly ▸ hcoherent.micro _ _ (.move move hvalid), hnodup.of_cons,
      fun other hother => ?_⟩
    obtain ⟨hotherRow, hotherBelow, hotherAlive⟩ := hrows other (List.mem_cons_of_mem _ hother)
    have hne : other.1 ≠ move.id := hid ▸ fst_ne_of_nodup hnodup hother
    have hkept : (move.apply (yardOf before)).jobs.get? other.1 = before.jobs.get? other.1 :=
      Move.get?_apply_ne move hne
    rw [happly] at hkept
    refine ⟨hkept.trans hotherRow, ?_, hotherAlive⟩
    rw [← happly]
    exact hotherBelow
  obtain ⟨after, hloop, _⟩ := Succeeds.forM hstep hstart
  exact ⟨(), after, hloop⟩

theorem succeeds_promoteJob (hrow : db.jobs.get? id = some row) (hwaiting : row.readySeq = 0) :
    Succeeds (promoteJob now (id, row)) db := by
  refine .bind (.bind (.mutate _) fun _ _ _ => .query _) fun seq db1 hseq => ?_
  have hrow1 : (yardOf db1).jobs.get? id = some row := by
    rw [(nextReadySeq_ok hseq).2]
    exact hrow
  exact .update_require hrow1 (by simp [hwaiting]) (.mutate _)

theorem promoteJob_row {job : String × JobRow} (h : promoteJob now job db = .ok () db') :
    (yardOf db').readySeq = (yardOf db).readySeq + 1 ∧
      ∃ row next : JobRow, (yardOf db).jobs.get? job.1 = some row ∧ next.state = .pending ∧
        next.readySeq = (yardOf db).readySeq + 1 ∧ next.availableAt = row.availableAt ∧
        (yardOf db').jobs = (yardOf db).jobs.modify job.1 fun _ => next := by
  obtain ⟨seq, db1, hseq, h⟩ := bind_ok h
  obtain ⟨rfl, hyard1⟩ := nextReadySeq_ok hseq
  obtain ⟨row, db2, hrow, _, hyard2, h⟩ := updateJob_ok h
  rw [hyard1] at hrow
  rw [addEvent_ok h, hyard2, hyard1]
  let next : JobRow := { row with
    state := .pending
    stateVersion := job.2.stateVersion + 1
    readySeq := (yardOf db).readySeq + 1
    updatedAt := timeToDB now }
  exact ⟨rfl, row, next, hrow, rfl, rfl, rfl, rfl⟩

theorem isDue_iff {job : String × JobRow} : isDue db now job = true ↔
    (job.2.state = .pending ∨ job.2.state = .retrying) ∧ job.2.readySeq = 0 ∧
      job.2.availableAt ≤ timeToDB now ∧ (yardOf db).ParentsSucceeded job.1 := by
  unfold isDue
  rw [← parentsSucceeded_iff]
  simp [and_assoc]

theorem due_of_mem {job : String × JobRow} (h : job ∈ dueJobs db now limit) :
    db.jobs.get? job.1 = some job.2 ∧ isDue db now job = true := by
  have hdue := List.mem_filter.mp (mem_orderByTime.mp (List.mem_of_mem_take h))
  exact ⟨(db.jobs.mem_rows_iff job.1 job.2).mp hdue.1, hdue.2⟩

theorem mem_dueJobs {job : String × JobRow} (hrow : db.jobs.get? job.1 = some job.2)
    (hdue : isDue db now job = true) (hlimit : (db.jobs.rows.length : Int) ≤ limit) :
    job ∈ dueJobs db now limit := by
  unfold dueJobs
  rw [List.take_of_length_le]
  · exact mem_orderByTime.mpr
      (List.mem_filter.mpr ⟨(db.jobs.mem_rows_iff job.1 job.2).mpr hrow, hdue⟩)
  · unfold orderByTime
    rw [List.length_insertionSort]
    have hfilter := List.length_filter_le (isDue db now) db.jobs.rows
    omega

def PromotedFrom (row : JobRow) (found : Option JobRow) : Prop :=
  ∃ next, found = some next ∧ next.state = .pending ∧ 0 < next.readySeq ∧
    next.availableAt = row.availableAt

theorem promoteDue_run (fences : Fences (yardOf db)) (now : Time) (limit : Int) :
    ∃ db', promoteDue now limit db = .ok (dueJobs db now limit).length db' ∧
      (∀ job ∈ dueJobs db now limit, PromotedFrom job.2 (db'.jobs.get? job.1)) ∧
      ∀ id, id ∉ (dueJobs db now limit).map Prod.fst → db'.jobs.get? id = db.jobs.get? id := by
  let motive (rest : List (String × JobRow)) (state : Database) : Prop :=
    0 ≤ (yardOf state).readySeq ∧ (rest.map Prod.fst).Nodup ∧
      (∀ job ∈ rest, job ∈ dueJobs db now limit ∧ state.jobs.get? job.1 = some job.2 ∧
        job.2.readySeq = 0) ∧
      (∀ job ∈ dueJobs db now limit, job ∈ rest ∨
        PromotedFrom job.2 (state.jobs.get? job.1)) ∧
      ∀ id, id ∉ (dueJobs db now limit).map Prod.fst → state.jobs.get? id = db.jobs.get? id
  have hnodupDue : ((dueJobs db now limit).map Prod.fst).Nodup :=
    (nodup_orderByTime (db.jobs.nodupKeys_filter _)).sublist
      ((List.take_sublist _ _).map Prod.fst)
  have hstart : motive (dueJobs db now limit) db := by
    refine ⟨fences.counter, hnodupDue, ?_, fun job hjob => .inl hjob, fun _ _ => rfl⟩
    intro job hjob
    obtain ⟨hrow, hdue⟩ := due_of_mem hjob
    exact ⟨hjob, hrow, (isDue_iff.mp hdue).2.1⟩
  have hstep : ∀ job rest before, motive (job :: rest) before →
      Succeeds (promoteJob now job) before ∧
        ∀ after, promoteJob now job before = .ok () after → motive rest after := by
    rintro job rest before ⟨hcounter, hnodup, hrows, hdone, hothers⟩
    obtain ⟨hjob, hrow, hwaiting⟩ := hrows job (List.mem_cons_self ..)
    refine ⟨succeeds_promoteJob hrow hwaiting, fun after hbody => ?_⟩
    obtain ⟨hseq, row, next, hfound, hpending, hready, htime, hjobs⟩ := promoteJob_row hbody
    change after.jobs = before.jobs.modify job.1 fun _ => next at hjobs
    change before.jobs.get? job.1 = some row at hfound
    rw [hrow, Option.some.injEq] at hfound
    have hself : after.jobs.get? job.1 = some next := by
      rw [hjobs, Table.get?_modify_self, hrow]
      rfl
    refine ⟨by omega, hnodup.of_cons, fun other hother => ?_, fun other hother => ?_,
      fun id hid => ?_⟩
    · rw [hjobs, Table.get?_modify_ne _ _ (fst_ne_of_nodup hnodup hother)]
      exact hrows other (List.mem_cons_of_mem _ hother)
    · by_cases heq : other.1 = job.1
      · obtain rfl : other = job := List.inj_on_of_nodup_map hnodupDue hother hjob heq
        exact .inr ⟨next, hself, hpending, by omega, htime.trans (by rw [hfound])⟩
      · rw [hjobs, Table.get?_modify_ne _ _ heq]
        rcases hdone other hother with hmem | hmoved
        · rcases List.mem_cons.mp hmem with rfl | hmem
          · exact (heq rfl).elim
          · exact .inl hmem
        · exact .inr hmoved
    · rw [hjobs, Table.get?_modify_ne]
      · exact hothers id hid
      · rintro rfl
        exact hid (List.mem_map_of_mem hjob)
  obtain ⟨after, hloop, _, _, _, hdone, hothers⟩ := Succeeds.forM hstep hstart
  refine ⟨after, (bind_run rfl).trans (bind_run hloop), fun job hjob => ?_, hothers⟩
  rcases hdone job hjob with hmem | hready
  · cases hmem
  · exact hready

theorem succeeds_deadLetterExpired {expired : ExpiredAttempt} (ledger : Ledger (yardOf db))
    (hrow : db.jobs.get? id = some row) (hcurrent : expired.current row = true) :
    Succeeds (deadLetterExpired now id expired) db := by
  have halive : row.state.terminal = false := by
    unfold ExpiredAttempt.current at hcurrent
    rw [Bool.and_eq_true] at hcurrent
    cases hstate : row.state <;> rw [hstate] at hcurrent <;> first | rfl | cases hcurrent.2
  obtain ⟨hcompletion, hdead⟩ := unsettled_of_alive ledger hrow halive
  exact .update_require hrow hcurrent
    (succeeds_settleDead hcompletion hdead fun _ _ _ _ => .mutate _)

theorem succeeds_reapAttempt (coherent : Coherent (yardOf db)) (h : Expired db now id expired) :
    Succeeds (reapAttempt now (id, expired)) db := by
  refine .bind (.update _ _) fun _ db1 hattempt => ?_
  have hyard1 := updateAttempt_ok hattempt
  have haccounts : Accounts (yardOf db1) := by
    rw [hyard1]
    exact coherent.accounts.of_same rfl rfl rfl
  have hrow1 : (yardOf db1).jobs.get? id = some expired.job := by
    rw [hyard1]
    exact h.job
  have hcurrent : expired.current expired.job = true := by
    unfold ExpiredAttempt.current
    simp [h.attemptNo, h.generation, h.leased]
  refine .bind (succeeds_releaseSlots haccounts hrow1 h.leased) fun _ db2 hrelease => ?_
  have hyard2 := expire_ok coherent.fences h.job hcurrent hattempt hrelease
  have hrow2 : (yardOf db2).jobs.get? id = some expired.job := by
    rw [hyard2]
    exact h.job
  have hledger : Ledger (yardOf db2) := by
    rw [hyard2]
    exact coherent.ledger.of_same rfl rfl rfl
  split
  · rename_i hexhausted
    refine .bind (succeeds_deadLetterExpired hledger hrow2 hcurrent) fun _ middle hbury => ?_
    obtain ⟨move, hreaped, _, happly⟩ := deadLetterExpired_ok (anyPolicy_allows .reap)
      ⟨expired.job, h.job, .refl expired.job⟩ hexhausted hyard2 hbury
    apply succeeds_failDescendants
    rw [happly]
    exact coherent.micro _ _ (.move move hreaped.valid)
  · refine .bind (.bind (.mutate _) fun _ _ _ => .query _) fun seq db3 hseq => ?_
    have hrow3 : (yardOf db3).jobs.get? id = some expired.job := by
      rw [(nextReadySeq_ok hseq).2]
      exact hrow2
    exact .update_require hrow3 hcurrent (.mutate _)

section Loop

theorem attempts_of_recovery (h : Recovery policy now id expired (yardOf db) (yardOf db'))
    {key : String × Int} (hne : key.1 ≠ id) : db'.attempts.get? key = db.attempts.get? key := by
  have hattempts := h.attempts
  change db'.attempts = db.attempts.modify _ _ at hattempts
  rw [hattempts, Table.get?_modify_ne]
  intro heq
  exact hne (by rw [heq])

theorem Expired.after (h : Expired db now otherID other)
    (hrecovery : Recovery policy now id expired (yardOf db) (yardOf db')) (hne : otherID ≠ id)
    (hoff : expired.exhausted = true → ¬(yardOf db).Descendant id otherID) :
    Expired db' now otherID other :=
  { h with
    attempt := (attempts_of_recovery hrecovery hne).trans h.attempt
    job := hrecovery.untouched h.job hne hoff }

theorem Expired.before (h : Expired db' now otherID other)
    (hrecovery : Recovery policy now id expired (yardOf db) (yardOf db')) :
    Expired db now otherID other ∧ otherID ≠ id := by
  rcases hrecovery.jobs_cases h.job with ⟨hne, hjob⟩ | ⟨hidle, _⟩
  · exact ⟨{ h with
      attempt := (attempts_of_recovery hrecovery hne).symm.trans h.attempt
      job := hjob }, hne⟩
  · rw [h.leased] at hidle
    cases hidle

def Detached (yard : Yard) (leases : List (String × ExpiredAttempt)) : Prop :=
  leases.Pairwise fun first second =>
    first.2.exhausted = true → ¬yard.Descendant first.1 second.1

/-- What a loop over `leases` leaves of the leases that were due. -/
structure Drained (db db' : Database) (now : Time) (leases tail : List (String × ExpiredAttempt)) :
    Prop where
  coherent : Coherent (yardOf db')
  edges : (yardOf db').edges = (yardOf db).edges
  left : ∀ entry ∈ tail, Expired db' now entry.1 entry.2
  due : ∀ id expired, Expired db' now id expired →
    Expired db now id expired ∧ id ∉ leases.map Prod.fst
  closed : ∀ entry ∈ leases, ∀ attempt,
    db'.attempts.get? (entry.1, entry.2.attemptNo) = some attempt → attempt.state.isOpen = false
  attempts : ∀ key : String × Int, key.1 ∉ leases.map Prod.fst →
    db'.attempts.get? key = db.attempts.get? key

theorem reap_loop {leases : List (String × ExpiredAttempt)} (coherent : Coherent (yardOf db))
    (expired : ∀ entry ∈ leases ++ tail, Expired db now entry.1 entry.2)
    (nodup : ((leases ++ tail).map Prod.fst).Nodup)
    (detached : Detached (yardOf db) (leases ++ tail)) :
    ∃ db', leases.forM (reapAttempt now) db = .ok () db' ∧ Drained db db' now leases tail := by
  induction leases generalizing db with
  | nil =>
    exact ⟨db, rfl, coherent, rfl, expired, fun _ _ h => ⟨h, List.not_mem_nil⟩,
      fun _ hentry => (by cases hentry), fun _ _ => rfl⟩
  | cons head rest ih =>
    have hhead := expired head (List.mem_cons_self ..)
    obtain ⟨_, db1, hreap⟩ := succeeds_reapAttempt coherent hhead
    have hrecovery : Recovery anyPolicy now head.1 head.2 (yardOf db) (yardOf db1) :=
      reapAttempt_ok (anyPolicy_allows .reap) coherent.fences ⟨head.2.job, hhead.job, .refl head.2.job⟩
        (fun hfalse => hfalse.elim) hreap
    have hcoherent := coherent.micros hrecovery.step.micros
    obtain ⟨hoff, hdetached⟩ := List.pairwise_cons.mp detached
    rw [List.cons_append] at nodup
    have hexpired : ∀ entry ∈ rest ++ tail, Expired db1 now entry.1 entry.2 := by
      intro entry hentry
      exact (expired entry (List.mem_cons_of_mem _ hentry)).after hrecovery
        (fst_ne_of_nodup nodup hentry) (hoff entry hentry)
    have hdetached : Detached (yardOf db1) (rest ++ tail) := by
      unfold Detached
      rw [descendant_of_edges hrecovery.edges]
      exact hdetached
    obtain ⟨db', hloop, hdrained⟩ := ih hcoherent hexpired nodup.of_cons hdetached
    refine ⟨db', (bind_run hreap).trans hloop, hdrained.coherent,
      hdrained.edges.trans hrecovery.edges, hdrained.left, ?_, ?_, ?_⟩
    · intro id lease hlease
      obtain ⟨hmiddle, hnot⟩ := hdrained.due id lease hlease
      obtain ⟨hbefore, hne⟩ := hmiddle.before hrecovery
      rw [List.map_cons, List.mem_cons, not_or]
      exact ⟨hbefore, hne, hnot⟩
    · intro entry hentry attempt hattempt
      rcases List.mem_cons.mp hentry with rfl | hentry
      · have hnot : entry.1 ∉ rest.map Prod.fst := by
          rw [List.map_cons, List.map_append, List.nodup_cons, List.mem_append, not_or] at nodup
          exact nodup.1.1
        rw [hdrained.attempts _ hnot] at hattempt
        have hattempts := congrArg (·.get? (entry.1, entry.2.attemptNo)) hrecovery.attempts
        rw [← hhead.attemptNo] at hattempts hattempt
        rw [Table.get?_modify_self] at hattempts
        obtain ⟨old, _, rfl⟩ := Option.map_eq_some_iff.mp (hattempts.symm.trans hattempt)
        exact (expiredEdit_closes now).closes old
      · exact hdrained.closed entry hentry attempt hattempt
    · intro key hkey
      rw [List.map_cons, List.mem_cons, not_or] at hkey
      exact (hdrained.attempts key hkey.2).trans (attempts_of_recovery hrecovery hkey.1)

theorem detached_of_reaped {leases : List (String × ExpiredAttempt)}
    (coherent : Coherent (yardOf db))
    (tracked : ∀ entry ∈ leases, Tracked db (entry.1, entry.2.job))
    (h : leases.forM (reapAttempt now) db = .ok () db') :
    Detached (yardOf db) leases ∧
      ∀ entry ∈ leases, ∃ row, db.jobs.get? entry.1 = some row ∧ row.state.terminal = false := by
  induction leases generalizing db with
  | nil => exact ⟨.nil, fun _ hentry => by cases hentry⟩
  | cons head rest ih =>
    obtain ⟨_, db1, hreap, hloop⟩ := bind_ok h
    have hrecovery : Recovery anyPolicy now head.1 head.2 (yardOf db) (yardOf db1) :=
      reapAttempt_ok (anyPolicy_allows .reap) coherent.fences (tracked head (List.mem_cons_self ..))
        (fun hfalse => hfalse.elim) hreap
    have hmicros := hrecovery.step.micros
    have hevolves := evolves_of_micros hmicros
    obtain ⟨hdetached, halive⟩ := ih (coherent.micros hmicros)
      (fun entry hentry => (tracked entry (List.mem_cons_of_mem _ hentry)).evolves hevolves) hloop
    unfold Detached at hdetached ⊢
    rw [descendant_of_edges hrecovery.edges] at hdetached
    refine ⟨List.pairwise_cons.mpr ⟨fun entry hentry hexhausted hdescendant => ?_, hdetached⟩,
      fun entry hentry => ?_⟩
    · obtain ⟨row, hrow, hrowAlive⟩ := halive entry hentry
      rw [hrecovery.terminal_below hexhausted hdescendant hrow] at hrowAlive
      cases hrowAlive
    · rcases List.mem_cons.mp hentry with rfl | hentry
      · obtain ⟨move, hreaped⟩ := hrecovery.exists_reaped
        exact ⟨move.row, hreaped.id_eq ▸ hreaped.valid.found, hreaped.valid.alive⟩
      · obtain ⟨before, hbefore, _⟩ := tracked entry (List.mem_cons_of_mem _ hentry)
        refine ⟨before, hbefore, Bool.eq_false_iff.mpr fun hterminal => ?_⟩
        obtain ⟨row, hrow, hrowAlive⟩ := halive entry hentry
        rw [show db1.jobs.get? entry.1 = _ from hevolves.terminal hbefore hterminal,
          Option.some.injEq] at hrow
        rw [← hrow, hterminal] at hrowAlive
        cases hrowAlive

end Loop

end RailYard.Refinement
