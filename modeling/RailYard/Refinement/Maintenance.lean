import RailYard.Refinement.Abstraction
import RailYard.Store.Maintenance

/-! Promotion, activation, failure propagation and reaping as moves. -/
namespace RailYard.Refinement
open Library Library.Transaction Domain Store
open Lifecycle Relation

theorem parentsSucceeded_iff :
    parentsSucceeded db jobID = true ↔ (yardOf db).ParentsSucceeded jobID := by
  unfold parentsSucceeded
  rw [List.all_eq_true]
  constructor
  · intro h parent row hedge hrow
    have hparent := h (jobID, parent) hedge
    change db.jobs.get? parent = some row at hrow
    simpa [hrow] using hparent
  · rintro h ⟨child, parent⟩ hedge
    by_cases hchild : child = jobID
    · subst hchild
      cases hrow : db.jobs.get? parent with
      | none => simp
      | some row => simpa [hrow] using h parent row hedge hrow
    · simp [hchild]

theorem ready_step {yard : Yard} {id : String} {row : JobRow} (updatedAt : Int)
    (found : yard.jobs.get? id = some row) (idle : row.state = .pending ∨ row.state = .retrying)
    (parents : yard.ParentsSucceeded id) (event : EventType.ofMove eventType = true)
    (completed : eventType ≠ .jobCompleted) (reaped : eventType ≠ .leaseReaped)
    (released : eventType = .dependencyReleased → row.state = .pending ∧ row.readySeq = 0)
    (edge : policy.edges id eventType row.state .pending) :
    Step policy yard { yard with
      jobs := yard.jobs.modify id fun _ => { row with
        state := .pending
        stateVersion := row.stateVersion + 1
        readySeq := yard.readySeq + 1
        updatedAt := updatedAt }
      history := record yard.history id eventType .pending (row.stateVersion + 1)
      readySeq := yard.readySeq + 1 } := by
  let move : Move := {
    id := id
    row := row
    next := { row with
      state := .pending
      stateVersion := row.stateVersion + 1
      readySeq := yard.readySeq + 1
      updatedAt := updatedAt }
    eventType := eventType
    attempts := yard.attempts
    readySeq := yard.readySeq + 1 }
  have hvalid : move.Valid policy yard := {
    found := found
    alive := by
      change row.state.terminal = false
      rcases idle with idle | idle <;> rw [idle] <;> rfl
    identity := ⟨rfl, rfl, rfl, rfl⟩
    version := rfl
    ended := fun hterminal => by cases hterminal
    event := event
    released := released
    punctual := fun _ _ _ => rfl
    readiness := .drawn rfl rfl rfl
    budget := .other completed reaped JobState.noConfusion fun hleased => by
      change row.state.leased = true at hleased
      rcases idle with idle | idle <;> rw [idle] at hleased <;> cases hleased
    edge := edge
    kind := .ready idle rfl parents ⟨rfl, rfl⟩ rfl }
  have hdelta : move.delta = 0 := by
    change 0 - slots row = 0
    rw [slots_of_unleased (by rcases idle with idle | idle <;> rw [idle] <;> rfl), sub_zero]
  have hstep := Move.step hvalid rfl
  rw [Move.apply_of_alive yard rfl, hdelta, Yard.shift_zero] at hstep
  exact hstep

theorem promoteJob_ok {job : String × JobRow} (allows : policy.Allows .promote)
    (idle : job.2.state = .pending ∨ job.2.state = .retrying)
    (parents : (yardOf db).ParentsSucceeded job.1) (h : promoteJob now job db = .ok () db') :
    Step policy (yardOf db) (yardOf db') := by
  obtain ⟨seq, db1, hseq, h⟩ := bind_ok h
  obtain ⟨rfl, hyard1⟩ := nextReadySeq_ok hseq
  obtain ⟨row, db2, hrow, hguard, hyard2, h⟩ := updateJob_ok h
  rw [hyard1] at hrow
  simp only [Bool.and_eq_true, decide_eq_true_eq] at hguard
  obtain ⟨⟨hstate, hversion⟩, _⟩ := hguard
  have hyard3 := addEvent_ok h
  rw [hyard3, hyard2, hyard1, ← hversion]
  exact ready_step (timeToDB now) hrow (hstate ▸ idle) parents rfl EventType.noConfusion
    EventType.noConfusion (fun hreleased => by cases hreleased)
    (allows _ _ _ _ (.promoted _ (hstate ▸ idle)))

theorem activateChild_ok {child : String × JobRow} (allows : policy.Allows .complete)
    (parents : (yardOf db).ParentsSucceeded child.1)
    (h : activateChild parentID now child db = .ok () db') :
    Step policy (yardOf db) (yardOf db') := by
  obtain ⟨seq, db1, hseq, h⟩ := bind_ok h
  obtain ⟨rfl, hyard1⟩ := nextReadySeq_ok hseq
  obtain ⟨row, db2, hrow, hguard, hyard2, h⟩ := updateJob_ok h
  rw [hyard1] at hrow
  simp only [Bool.and_eq_true, decide_eq_true_eq] at hguard
  obtain ⟨⟨hstate, hwaiting⟩, hversion⟩ := hguard
  have hyard3 := addEvent_ok h
  rw [hyard3, hyard2, hyard1, ← hversion]
  dsimp only
  rw [hstate]
  refine ready_step (timeToDB now) hrow (.inl hstate) parents rfl EventType.noConfusion
    EventType.noConfusion (fun _ => ⟨hstate, hwaiting⟩) ?_
  rw [hstate]
  exact allows _ _ _ _ (.activated _)

theorem mem_orderByTime {ρ : Type} {time : String × ρ → Int} {rows : List (String × ρ)}
    {entry : String × ρ} : entry ∈ orderByTime time rows ↔ entry ∈ rows :=
  List.mem_insertionSort _

theorem mem_orderByID {ρ : Type} {rows : List (String × ρ)} {entry : String × ρ} :
    entry ∈ orderByID rows ↔ entry ∈ rows :=
  List.mem_insertionSort _

theorem pairwise_orderByTime {ρ : Type} (time : String × ρ → Int) (rows : List (String × ρ)) :
    (orderByTime time rows).Pairwise fun a b =>
      time a < time b ∨ time a = time b ∧ ¬b.1 < a.1 := by
  have : Std.Total fun a b : String × ρ => time a < time b ∨ time a = time b ∧ ¬b.1 < a.1 := by
    refine ⟨fun a b => ?_⟩
    rcases lt_trichotomy (time a) (time b) with hless | heq | hless
    · exact .inl (.inl hless)
    · rcases lt_or_ge b.1 a.1 with hid | hid
      · exact .inr (.inr ⟨heq.symm, not_lt_of_gt hid⟩)
      · exact .inl (.inr ⟨heq, not_lt_of_ge hid⟩)
    · exact .inr (.inl hless)
  have : IsTrans (String × ρ) fun a b => time a < time b ∨ time a = time b ∧ ¬b.1 < a.1 := by
    refine ⟨fun a b c hab hbc => ?_⟩
    rcases hab with hab | ⟨hab, hid⟩ <;> rcases hbc with hbc | ⟨hbc, hid'⟩
    · exact .inl (hab.trans hbc)
    · exact .inl (hab.trans_eq hbc)
    · exact .inl (hab.trans_lt hbc)
    · exact .inr ⟨hab.trans hbc, not_lt_of_ge ((not_lt.mp hid).trans (not_lt.mp hid'))⟩
  exact List.pairwise_insertionSort _ rows

theorem nodup_orderByTime {ρ : Type} {time : String × ρ → Int} {rows : List (String × ρ)}
    (h : (rows.map Prod.fst).Nodup) : ((orderByTime time rows).map Prod.fst).Nodup :=
  ((List.perm_insertionSort _ rows).map Prod.fst).nodup_iff.mpr h

theorem promoteDue_ok (graph : Graph (yardOf db)) (allows : policy.Allows .promote)
    (h : promoteDue now limit db = .ok count db') :
    ReflTransGen (Step policy) (yardOf db) (yardOf db') := by
  replace h := query_bind h
  obtain ⟨_, _, hloop⟩ := bind_pure_ok h
  refine forM_reaches ?_ hloop
  intro entry hentry before after hreached hbody
  have hdue := List.mem_filter.mp (mem_orderByTime.mp (List.mem_of_mem_take hentry))
  unfold isDue at hdue
  simp only [Bool.and_eq_true, Bool.or_eq_true, decide_eq_true_eq] at hdue
  obtain ⟨hmem, ⟨⟨hidle, _⟩, _⟩, hparents⟩ := hdue
  have hrow := (db.jobs.mem_rows_iff entry.1 entry.2).mp hmem
  have hevolves := evolves_of_micros (micros_of_steps hreached)
  exact .single (promoteJob_ok allows hidle
    ((parentsSucceeded_iff.mp hparents).evolves graph hevolves hrow) hbody)

theorem activateChildren_ok (graph : Graph (yardOf db)) (allows : policy.Allows .complete)
    (h : activateChildren parentID now db = .ok () db') :
    ReflTransGen (Step policy) (yardOf db) (yardOf db') := by
  replace h := query_bind h
  refine forM_reaches ?_ h
  intro entry hentry before after hreached hbody
  have hactivated := List.mem_filter.mp (mem_orderByID.mp hentry)
  unfold isActivated at hactivated
  simp only [Bool.and_eq_true] at hactivated
  obtain ⟨hmem, _, hparents⟩ := hactivated
  have hrow := (db.jobs.mem_rows_iff entry.1 entry.2).mp hmem
  have hevolves := evolves_of_micros (micros_of_steps hreached)
  exact .single (activateChild_ok allows
    ((parentsSucceeded_iff.mp hparents).evolves graph hevolves hrow) hbody)

theorem mem_descendants_iff {id : String} :
    id ∈ Closure.descendants (dependencyEdges db) root ↔ (yardOf db).Descendant root id := by
  rw [Closure.mem_descendants]
  have hedge : Closure.Edge (dependencyEdges db) =
      fun parent child => (yardOf db).DependsOn child parent := by
    funext parent child
    unfold Closure.Edge dependencyEdges Yard.DependsOn
    simp
    rfl
  rw [hedge]
  rfl

theorem mem_failingDescendants {entry : String × JobRow} :
    entry ∈ failingDescendants db root ↔ (yardOf db).jobs.get? entry.1 = some entry.2 ∧
      (yardOf db).Descendant root entry.1 ∧ entry.2.state.terminal = false := by
  unfold failingDescendants isFailing
  rw [mem_orderByID, List.mem_filter, Table.mem_rows_iff]
  simp only [Bool.and_eq_true, decide_eq_true_eq, mem_descendants_iff, Bool.not_eq_true']
  rfl

theorem releaseHeld_ok {row : JobRow} (h : onlyIf (row.state.leased = true)
      (releaseSlots row.tenantID row.queueName row.slotCost now) db = .ok () db') :
    yardOf db' = (yardOf db).shift row.tenantID row.queueName (-slots row) := by
  rcases onlyIf_ok h with ⟨hleased, h⟩ | ⟨hidle, rfl⟩
  · rw [slots_of_leased hleased]
    exact releaseSlots_ok h
  · rw [slots_of_unleased (Bool.eq_false_iff.mpr hidle), neg_zero, Yard.shift_zero]

theorem failDescendant_ok {child : String × JobRow} (buries : policy.Buries)
    (tracked : Tracked db child) (descendant : (yardOf db).Descendant root child.1)
    (tidy : policy.tidy → child.2.state.leased = false)
    (h : failDescendant root now child db = .ok () db') :
    ∃ move : Move, move.Valid policy (yardOf db) ∧ move.id = child.1 ∧
      move.next.state = .deadLetter ∧ move.attempts = (yardOf db).attempts ∧
      move.apply (yardOf db) = yardOf db' := by
  obtain ⟨_, db1, hrelease, h⟩ := bind_ok h
  have hyard1 := releaseHeld_ok hrelease
  obtain ⟨row, db2, hrow, hguard, hyard2, h⟩ := updateJob_ok h
  obtain ⟨_, db3, hcompletion, h⟩ := bind_ok h
  obtain ⟨_, hyard3⟩ := insertCanonicalCompletion_ok hcompletion
  obtain ⟨_, db4, hdead, h⟩ := bind_ok h
  have hyard4 := insertDeadLetter_ok hdead
  have hyard5 := addEvent_ok h
  rw [hyard1] at hrow
  change (yardOf db).jobs.get? child.1 = some row at hrow
  simp only [Bool.and_eq_true, decide_eq_true_eq, Bool.not_eq_true'] at hguard
  obtain ⟨hversion, halive⟩ := hguard
  obtain rfl : row = child.2 := tracked.eq hrow hversion
  let move : Move := {
    id := child.1
    row := child.2
    next := { child.2 with
      state := .deadLetter
      stateVersion := child.2.stateVersion + 1
      readySeq := 0
      updatedAt := timeToDB now
      terminalAt := some (timeToDB now)
      failure := some upstreamFailed }
    eventType := .upstreamFailed
    attempts := (yardOf db).attempts
    readySeq := (yardOf db).readySeq }
  have hdelta : move.delta = -slots child.2 := zero_sub _
  refine ⟨move, ?_, rfl, rfl, rfl, ?_⟩
  · exact {
      found := hrow
      alive := halive
      identity := ⟨rfl, rfl, rfl, rfl⟩
      version := rfl
      ended := fun _ => rfl
      event := rfl
      released := fun hreleased => by cases hreleased
      punctual := fun _ _ _ => rfl
      readiness := .dropped JobState.noConfusion rfl rfl
      budget := .other EventType.noConfusion EventType.noConfusion JobState.noConfusion
        fun _ _ hlive => by cases hlive
      edge := buries _ _ halive
      kind := .cascade root descendant rfl tidy ⟨rfl, rfl⟩ rfl }
  · rw [Move.apply_of_dead _ rfl, hdelta, hyard5, hyard4, hyard3, hyard2, hyard1]
    rfl

theorem failDescendants_ok (buries : policy.Buries) (tidy : policy.tidy → (yardOf db).Clear root)
    (h : failDescendants root now db = .ok () db') :
    ReflTransGen (CascadeMove policy root) (yardOf db) (yardOf db') ∧
      ∀ id row, (yardOf db').Descendant root id → (yardOf db').jobs.get? id = some row →
        row.state.terminal = true := by
  replace h := query_bind h
  -- What is still alive below the root is still on the list.
  let motive (rest : List (String × JobRow)) (state : Database) : Prop :=
    ReflTransGen (CascadeMove policy root) (yardOf db) (yardOf state) ∧
      rest ⊆ failingDescendants db root ∧
      ∀ id row, (yardOf state).Descendant root id → (yardOf state).jobs.get? id = some row →
        row.state.terminal = false → id ∈ rest.map Prod.fst
  have hend : motive [] db' := by
    refine forM_ok (motive := motive) ?_ ⟨.refl, List.Subset.refl _, ?_⟩ h
    · rintro child rest before after ⟨hreached, hsubset, hleft⟩ hbody
      obtain ⟨hrow, hdescendant, _⟩ := mem_failingDescendants.mp (hsubset (List.mem_cons_self ..))
      have hevolves := evolves_of_micros
        (ReflTransGen.mono (fun _ _ => CascadeMove.micro) _ _ hreached)
      have htracked : Tracked before child :=
        Tracked.evolves ⟨child.2, hrow, .refl child.2⟩ hevolves
      have hbelow : (yardOf before).Descendant root child.1 := by
        rwa [descendant_of_edges (edges_of_cascade hreached)]
      obtain ⟨move, hvalid, hid, hdead, hkept, happly⟩ := failDescendant_ok buries htracked hbelow
        (fun hpolicy => tidy hpolicy child.1 child.2 hdescendant hrow) hbody
      refine ⟨hreached.tail ⟨move, hvalid, hdead, hid ▸ hbelow, hkept, happly⟩,
        fun entry hentry => hsubset (List.mem_cons_of_mem _ hentry), ?_⟩
      intro id row hdescendant' hrow' halive
      rw [← happly] at hdescendant' hrow'
      rcases Move.get?_apply_cases hvalid hrow' with ⟨_, rfl⟩ | ⟨hne, hbefore⟩
      · rw [hdead] at halive
        cases halive
      · have hmem := hleft id row hdescendant' hbefore halive
        rw [List.map_cons, List.mem_cons] at hmem
        rcases hmem with heq | hmem
        · exact (hne (heq.trans hid.symm)).elim
        · exact hmem
    · intro id row hdescendant hrow halive
      exact List.mem_map.mpr
        ⟨(id, row), mem_failingDescendants.mpr ⟨hrow, hdescendant, halive⟩, rfl⟩
  refine ⟨hend.1, ?_⟩
  intro id row hdescendant hrow
  by_contra halive
  have hmem := hend.2.2 id row hdescendant hrow (Bool.eq_false_iff.mpr halive)
  cases hmem

section Cascade

variable {yard : Yard} {move : Move} {policy : Policy} (buries : policy.Buries)
  (valid : move.Valid policy yard) (released : move.next.state.leased = false)
  (happly : yardOf db = move.apply yard) (tidy : policy.tidy → yard.Clear move.id)
  (h : failDescendants move.id now db = .ok () db')
include buries valid released happly tidy h

theorem cascade_ok :
    ReflTransGen (CascadeMove policy move.id) (move.apply yard) (yardOf db') ∧
      ∀ id row, (yardOf db').Descendant move.id id → (yardOf db').jobs.get? id = some row →
        row.state.terminal = true := by
  have hclear : policy.tidy → (yardOf db).Clear move.id := by
    intro hpolicy id row hdescendant hrow
    rw [happly] at hdescendant hrow
    rcases Move.get?_apply_cases valid hrow with ⟨_, rfl⟩ | ⟨_, hbefore⟩
    · exact released
    · exact tidy hpolicy id row hdescendant hbefore
  rw [← happly]
  exact failDescendants_ok buries hclear h

theorem fail_step : Step policy yard (yardOf db') := by
  obtain ⟨hcascade, hcomplete⟩ := cascade_ok buries valid released happly tidy h
  exact .fail move valid hcascade hcomplete

end Cascade

structure Expired (db : Database) (now : Time) (id : String) (expired : ExpiredAttempt) :
    Prop where
  attempt : db.attempts.get? (id, expired.attemptNo) = some expired.attempt
  job : db.jobs.get? id = some expired.job
  attemptNo : expired.job.attemptNo = expired.attemptNo
  generation : expired.job.leaseGeneration = expired.attempt.leaseGeneration
  isOpen : expired.attempt.state.isOpen = true
  due : expired.attempt.expiresAt ≤ timeToDB now
  leased : expired.job.state.leased = true

theorem expiredAttempt?_eq_some {entry : (String × Int) × AttemptRow}
    {lease : String × ExpiredAttempt} :
    expiredAttempt? db now entry = some lease ↔ lease.1 = entry.1.1 ∧
      lease.2.attemptNo = entry.1.2 ∧ lease.2.attempt = entry.2 ∧
      db.jobs.get? entry.1.1 = some lease.2.job ∧ lease.2.job.attemptNo = entry.1.2 ∧
      lease.2.job.leaseGeneration = entry.2.leaseGeneration ∧ entry.2.state.isOpen = true ∧
      entry.2.expiresAt ≤ timeToDB now ∧ lease.2.job.state.leased = true := by
  unfold expiredAttempt?
  constructor
  · intro h
    split at h
    · cases h
    · rename_i job hjob
      split at h
      · rename_i hcurrent
        cases h
        exact ⟨rfl, rfl, rfl, hjob, hcurrent⟩
      · cases h
  · obtain ⟨id, attemptNo, attempt, job⟩ := lease
    rintro ⟨rfl, rfl, rfl, hjob, hcurrent⟩
    rw [hjob]
    exact if_pos hcurrent

theorem mem_expiredLeases {id : String} :
    (id, expired) ∈ expiredLeases db now ↔ Expired db now id expired := by
  unfold expiredLeases
  rw [mem_orderByTime, List.mem_filterMap]
  constructor
  · rintro ⟨⟨⟨jobID, attemptNo⟩, attempt⟩, hmem, hexpired⟩
    have hattempt := (db.attempts.mem_rows_iff _ _).mp hmem
    obtain ⟨rfl, rfl, rfl, hjob, hnumber, hgeneration, hopen, hdue, hleased⟩ :=
      expiredAttempt?_eq_some.mp hexpired
    exact ⟨hattempt, hjob, hnumber, hgeneration, hopen, hdue, hleased⟩
  · intro h
    exact ⟨((id, expired.attemptNo), expired.attempt),
      (db.attempts.mem_rows_iff _ _).mpr h.attempt, expiredAttempt?_eq_some.mpr
        ⟨rfl, rfl, rfl, h.job, h.attemptNo, h.generation, h.isOpen, h.due, h.leased⟩⟩

theorem nodup_expiredLeases (db : Database) (now : Time) :
    ((expiredLeases db now).map Prod.fst).Nodup := by
  apply nodup_orderByTime
  unfold List.Nodup
  rw [List.pairwise_map, List.pairwise_filterMap]
  have hkeys : db.attempts.rows.Pairwise fun a b => a.1 ≠ b.1 :=
    List.pairwise_map.mp db.attempts.nodupKeys
  refine hkeys.imp fun {a b} hne x hx y hy heq => hne ?_
  obtain ⟨hxid, _, _, hxjob, hxnumber, _⟩ := expiredAttempt?_eq_some.mp hx
  obtain ⟨hyid, _, _, hyjob, hynumber, _⟩ := expiredAttempt?_eq_some.mp hy
  rw [← hyid, ← heq, hxid, hxjob, Option.some.injEq] at hyjob
  exact Prod.ext (by rw [← hxid, heq, hyid]) (by rw [← hxnumber, hyjob, hynumber])

end RailYard.Refinement
