import RailYard.Lifecycle.Numbering
import RailYard.Refinement.Areas
import RailYard.Refinement.Capacity
import RailYard.Store.Export

/-! The decision log beside the tables it explains. Only `acquire` touches what
the scheduler carries from one decision to the next, and it adds one record for
the cursor, the deficits and the leases that it changes. -/
namespace RailYard.Refinement
open Library Library.Transaction Domain Store
open Scheduler Lifecycle Relation

variable {policy : Policy} {env : Env} {sha256 : Hash} {db db' : Database} {now : Time}
  {request : AcquireRequest} {leases : List Lease} {record : Record}

def deficitOf (db : Database) (key : String × String) : Int :=
  ((db.queueState.get? key).map QueueRow.deficit).getD 0

structure Fairness where
  sequence : Int
  cursor : Int
  log : Table Int DecisionRow
  deficits : String × String → Int

def fairnessOf (db : Database) : Fairness where
  sequence := db.schedulerSeq
  cursor := db.schedulerCursor
  log := db.decisionLog
  deficits := deficitOf db

theorem deficitOf_modify (db : Database) (key : String × String) (change : QueueRow → QueueRow)
    (key' : String × String) :
    deficitOf { db with queueState := db.queueState.modify key change } key' =
      if key' = key then ((db.queueState.get? key).map fun row => (change row).deficit).getD 0
      else deficitOf db key' := by
  unfold deficitOf
  rw [Table.get?_modify]
  split
  · rw [Option.map_map]
    rfl
  · rfl

theorem aloof_fairness : Aloof fairnessOf := by
  refine { toApart := ?_, attempts := fun _ _ => rfl }
  constructor
  case newQueue =>
    intro db key row habsent hzero
    have hdeficits : deficitOf { db with queueState := db.queueState.insert key row } =
        deficitOf db := by
      funext key'
      unfold deficitOf
      rw [Table.get?_insert]
      split
      · rename_i hkey
        rw [hkey, habsent]
        exact hzero
      · rfl
    unfold fairnessOf
    rw [hdeficits]
  case queueSlots =>
    intro db key change hsame
    have hdeficits : deficitOf { db with queueState := db.queueState.modify key change } =
        deficitOf db := by
      funext key'
      rw [deficitOf_modify]
      split
      · rename_i hkey
        rw [hkey]
        simp only [deficitOf, hsame]
      · rfl
    unfold fairnessOf
    rw [hdeficits]
  all_goals intros; rfl

theorem outside_fairness (h : grantsLeases op = false) : Outside fairnessOf (area op) := by
  cases op
  case acquire => cases h
  all_goals
    dsimp only [area, Outside, Deaf]
    repeat' constructor
  all_goals intros; rfl

def records (db : Database) : List Record := db.decisionLog.rows.map fun entry => entry.2.record

structure Journaled (sha256 : Hash) (db : Database) : Prop where
  committed : Committed sha256 (records db)
  keyed : ∀ entry ∈ db.decisionLog.rows,
    entry.1 = entry.2.record.sequence ∧ entry.2.hash = entry.2.record.hash
  counter : db.schedulerSeq = (records db).length
  cursor : db.schedulerCursor = latestCursor (records db)
  deficits : ∀ key, deficitOf db key = latestDeficit (records db) key

theorem Journaled.same (h : Journaled sha256 db) (heq : fairnessOf db' = fairnessOf db) :
    Journaled sha256 db' := by
  injection heq with hsequence hcursor hlog hdeficits
  obtain ⟨hcommitted, hkeyed, hcounter, hlatest, hdeficit⟩ := h
  unfold records at *
  rw [← hlog] at hcommitted hkeyed hcounter hlatest hdeficit
  rw [← hsequence] at hcounter
  rw [← hcursor] at hlatest
  rw [← hdeficits] at hdeficit
  exact ⟨hcommitted, hkeyed, hcounter, hlatest, hdeficit⟩

theorem Journaled.keys (h : Journaled sha256 db) :
    db.decisionLog.keys = firstNumbers (records db).length := by
  rw [← h.committed.sequences]
  unfold records Table.keys
  rw [List.map_map]
  exact List.map_congr_left fun entry hentry => (h.keyed entry hentry).1

theorem Journaled.ascending (h : Journaled sha256 db) :
    db.decisionLog.rows.Pairwise fun first second => first.1 < second.1 := by
  have hkeys := ascending_firstNumbers (records db).length
  rw [← h.keys] at hkeys
  exact List.pairwise_map.mp hkeys

theorem Journaled.decisionRecords_eq (h : Journaled sha256 db) :
    decisionRecords db = records db := by
  unfold decisionRecords records
  rw [List.Pairwise.insertionSort_eq (h.ascending.imp fun hless => Int.le_of_lt hless)]

theorem Journaled.descending (h : Journaled sha256 db) :
    (db.decisionLog.rows.insertionSort fun a b => b.1 ≤ a.1) = db.decisionLog.rows.reverse := by
  have htotal : Std.Total fun a b : Int × DecisionRow => b.1 ≤ a.1 :=
    ⟨fun a b => Int.le_total b.1 a.1⟩
  have htrans : IsTrans (Int × DecisionRow) fun a b => b.1 ≤ a.1 :=
    ⟨fun _ _ _ hab hbc => Int.le_trans hbc hab⟩
  refine List.Perm.eq_of_pairwise ?_ (List.pairwise_insertionSort _ _) ?_
    ((List.perm_insertionSort _ _).trans (List.reverse_perm _).symm)
  · intro first second hfirst hsecond hge hle
    have hkey := Int.le_antisymm hle hge
    rw [List.mem_insertionSort, ← Prod.mk.eta (p := first), Table.mem_rows_iff] at hfirst
    rw [List.mem_reverse, ← Prod.mk.eta (p := second), Table.mem_rows_iff, ← hkey, hfirst,
      Option.some.injEq] at hsecond
    exact Prod.ext hkey hsecond
  · exact List.pairwise_reverse.mpr (h.ascending.imp fun hless => Int.le_of_lt hless)

theorem Journaled.previousHash_eq (h : Journaled sha256 db) :
    previousHash db = headHash (records db) := by
  unfold previousHash headHash records
  rw [h.descending, List.head?_reverse, List.getLast?_map]
  cases hlast : db.decisionLog.rows.getLast? with
  | none => rfl
  | some last => exact (h.keyed last (List.mem_of_getLast? hlast)).2

theorem keys_buildQueues (db : Database) (ranked : List (String × JobRow)) :
    (buildQueues db ranked).map (fun queue => (queue.tenantID, queue.name)) =
      (ranked.map queueKey).dedup.filter fun key => (db.queueState.get? key).isSome := by
  unfold buildQueues
  rw [List.map_filterMap, ← List.filterMap_eq_filter]
  apply List.filterMap_congr
  intro key _
  cases hrow : db.queueState.get? key <;> simp [Option.guard, hrow]

theorem keys_decision (h : Scheduler.decide (snapshotOf sha256 request now db) = .ok decision) :
    (decision.queues.map fun queue => (queue.tenantID, queue.queue)).Perm
      ((rankedJobs db now request.limit).map queueKey).dedup := by
  rw [(decide_ok h).names]
  have hperm : ((cloneAndSort (buildQueues db (rankedJobs db now request.limit))).map
      fun queue => (queue.tenantID, queue.name)).Perm
      ((buildQueues db (rankedJobs db now request.limit)).map
        fun queue => (queue.tenantID, queue.name)) := by
    unfold cloneAndSort
    refine ((List.perm_insertionSort _ _).map _).trans ?_
    rw [List.map_map]
    exact .refl _
  refine hperm.trans ?_
  rw [keys_buildQueues, List.filter_eq_self.mpr]
  intro key hkey
  obtain ⟨entry, hentry, rfl⟩ := List.mem_map.mp (List.mem_dedup.mp hkey)
  exact (isReady_iff.mp (mem_rankedJobs hentry).2).2.2.2.2

theorem updateDeficits_ok {queues : List QueueState}
    (nodup : (queues.map fun queue => (queue.tenantID, queue.queue)).Nodup)
    (exist : ∀ queue ∈ queues, (db.queueState.get? (queue.tenantID, queue.queue)).isSome)
    (h : queues.forM (updateDeficit now) db = .ok () db') :
    db' = { db with queueState := db'.queueState } ∧ ∀ key, deficitOf db' key =
      ((queues.find? fun queue => (queue.tenantID, queue.queue) = key).map
        QueueState.deficit).getD (deficitOf db key) := by
  induction queues generalizing db with
  | nil =>
    obtain ⟨_, rfl⟩ := pure_ok h
    exact ⟨rfl, fun _ => rfl⟩
  | cons queue queues ih =>
    obtain ⟨_, between, hfirst, h⟩ := bind_ok h
    rw [List.map_cons, List.nodup_cons] at nodup
    rw [List.forall_mem_cons] at exist
    obtain ⟨change, hchange, hbetween⟩ : ∃ change : QueueRow → QueueRow,
        (∀ row, (change row).deficit = queue.deficit) ∧ between = { db with
          queueState := db.queueState.modify (queue.tenantID, queue.queue) change } := by
      obtain ⟨_, _, hupdate⟩ := bind_pure_ok hfirst
      rcases update_ok hupdate with ⟨_, _, _, _, rfl⟩ | ⟨_, hrefused, _⟩
      · exact ⟨_, fun _ => rfl, rfl⟩
      · obtain ⟨row, hrow⟩ := Option.isSome_iff_exists.mp exist.1
        cases hrefused row hrow
    have hkept : ∀ other ∈ queues,
        (between.queueState.get? (other.tenantID, other.queue)).isSome := by
      intro other hother
      have hsome := exist.2 other hother
      rw [hbetween]
      dsimp only
      rw [Table.get?_modify]
      split
      · rw [Option.isSome_map]
        exact exist.1
      · exact hsome
    obtain ⟨hrest, hdeficits⟩ := ih nodup.2 hkept h
    refine ⟨by rw [hrest, hbetween], fun key => ?_⟩
    rw [hdeficits, hbetween, deficitOf_modify, List.find?_cons]
    by_cases hkey : (queue.tenantID, queue.queue) = key
    · -- The rest of the loop does not come back to this queue.
      have hnone : queues.find? (fun other => (other.tenantID, other.queue) = key) = none := by
        refine List.find?_eq_none.mpr fun other hother hsame => nodup.1 ?_
        rw [decide_eq_true_eq] at hsame
        rw [hkey, ← hsame]
        exact List.mem_map_of_mem hother
      obtain ⟨row, hrow⟩ := Option.isSome_iff_exists.mp exist.1
      rw [hnone, if_pos hkey.symm, hrow]
      simp [hkey, hchange]
    · rw [if_neg (Ne.symm hkey)]
      simp [hkey]

theorem grantLeases_ids {index : Nat}
    (h : grantLeases sha256 request now plan tokens index grants db = .ok leases db') :
    leases.map Lease.jobID = grants.map Grant.jobID := by
  induction grants generalizing index db leases with
  | nil =>
    obtain ⟨rfl, _⟩ := pure_ok h
    rfl
  | cons grant grants ih =>
    obtain ⟨lease, db1, hlease, h⟩ := bind_ok h
    obtain ⟨others, db2, hothers, h⟩ := bind_ok h
    obtain ⟨rfl, rfl⟩ := pure_ok h
    rw [List.map_cons, List.map_cons, ih hothers]
    obtain ⟨_, _, hid, hlease⟩ := grantLease_ok hlease
    rw [(scheduleCandidate_lease hlease).1, hid]

/-- A call of `acquire` that came to a decision. -/
structure Logged (sha256 : Hash) (request : AcquireRequest) (now : Time) (leases : List Lease)
    (db db' : Database) (record : Record) : Prop where
  decided : Scheduler.decide (snapshotOf sha256 request now db) = .ok record.decision
  recorded : newRecord sha256 (previousHash db) (snapshotOf sha256 request now db)
    record.decision = .ok record
  counter : db'.schedulerSeq = db.schedulerSeq + 1
  cursor : db'.schedulerCursor = record.decision.nextCursor
  log : db'.decisionLog.rows = db.decisionLog.rows ++
    [(record.sequence, ⟨record.previousHash, record.hash, record, timeToDB now⟩)]
  deficits : ∀ key, deficitOf db' key = (record.decision.deficit? key).getD (deficitOf db key)
  leases : leases.map Lease.jobID = record.decision.grants.map Grant.jobID

theorem persistSchedulePlan_logs {plan : SchedulePlan}
    (nodup : (plan.decision.queues.map fun queue => (queue.tenantID, queue.queue)).Nodup)
    (exist : ∀ queue ∈ plan.decision.queues,
      (db.queueState.get? (queue.tenantID, queue.queue)).isSome)
    (h : persistSchedulePlan sha256 plan now db = .ok () db') :
    ∃ record, newRecord sha256 (previousHash db) plan.input plan.decision = .ok record ∧
      db'.schedulerSeq = db.schedulerSeq ∧ db'.schedulerCursor = plan.decision.nextCursor ∧
      db'.decisionLog.rows = db.decisionLog.rows ++
        [(record.sequence, ⟨record.previousHash, record.hash, record, timeToDB now⟩)] ∧
      ∀ key, deficitOf db' key = (plan.decision.deficit? key).getD (deficitOf db key) := by
  obtain ⟨_, db1, hdeficits, h⟩ := bind_ok h
  obtain ⟨hframe, hdeficit⟩ := updateDeficits_ok nodup exist hdeficits
  obtain ⟨_, _, hcursor, h⟩ := bind_ok h
  rw [← mutate_ok hcursor] at h
  replace h := query_bind h
  obtain ⟨record, hnew, h⟩ := lift_bind h
  replace h := query_bind h
  obtain ⟨_, h⟩ := require_bind h
  obtain ⟨habsent, rfl⟩ := insert_ok h
  have hlog : db1.decisionLog = db.decisionLog := by rw [hframe]
  refine ⟨record, ?_, ?_, rfl, ?_, hdeficit⟩
  · rw [← hnew]
    unfold previousHash
    rw [hlog]
  · change db1.schedulerSeq = _
    rw [hframe]
  · rw [← hlog]
    exact Table.rows_insert _ _ habsent

theorem queue_kept (sound : Sound (yardOf db')) (hevolves : Evolves (yardOf db) (yardOf db'))
    (h : key ∈ (rankedJobs db now limit).map queueKey) : (db'.queueState.get? key).isSome := by
  obtain ⟨entry, hentry, rfl⟩ := List.mem_map.mp h
  obtain ⟨row, hrow, hlater⟩ := (tracked_rankedJobs hentry).evolves hevolves
  have hsome := sound.accounts.queueExists entry.1 row hrow
  rw [hlater.identity.tenantID, hlater.identity.queueName] at hsome
  change (activeSlots db'.queueState (queueKey entry)).isSome at hsome
  unfold activeSlots at hsome
  rwa [Option.isSome_map] at hsome

theorem acquire_logs (sound : Sound (yardOf db))
    (h : acquire sha256 request tokens now db = .ok leases db') :
    (Idle request now db ∧ leases = [] ∧ db' = db) ∨
      ∃ record, Logged sha256 request now leases db db' record := by
  rcases acquire_cases h with hidle | ⟨decision, db1, hdecided, hgrants, hpersist⟩
  · exact .inl hidle
  · right
    have hkeys := keys_decision hdecided
    have htracked : ∀ entry ∈ rankedJobs db now request.limit,
        Tracked { db with schedulerSeq := db.schedulerSeq + 1 } entry :=
      fun entry hentry => tracked_rankedJobs hentry
    have granting : anyPolicy.granting := trivial
    have hsteps := (grantLeases_ok granting (anyPolicy_allows .acquire) rfl htracked hgrants).steps
    have hexist : ∀ queue ∈ decision.queues,
        (db1.queueState.get? (queue.tenantID, queue.queue)).isSome := fun queue hqueue =>
      queue_kept (sound.steps hsteps) (evolves_of_micros (micros_of_steps hsteps))
        (List.mem_dedup.mp (hkeys.subset (List.mem_map_of_mem hqueue)))
    obtain ⟨record, hrecord, hcounter, hcursor, hlog, hdeficits⟩ :=
      persistSchedulePlan_logs (hkeys.nodup_iff.mpr (List.nodup_dedup _)) hexist hpersist
    have hframe : fairnessOf db1 = { fairnessOf db with sequence := db.schedulerSeq + 1 } :=
      Preserves.ok ((aloof_fairness.lives _).grantLeases _ _ _ _ _ _) hgrants
    injection hframe with hsequence' _ hlog' hdeficits'
    obtain ⟨_, rfl⟩ := recordOf_newRecord hrecord
    rw [hlog'] at hlog
    rw [hdeficits'] at hdeficits
    refine ⟨record, hdecided, ?_, hcounter.trans hsequence', hcursor, hlog, hdeficits,
      grantLeases_ids hgrants⟩
    rw [← hrecord]
    unfold previousHash
    rw [hlog']
    rfl

theorem Logged.records_eq (h : Logged sha256 request now leases db db' record) :
    records db' = records db ++ [record] := by
  unfold records
  rw [h.log, List.map_append]
  rfl

theorem Logged.entered (h : Logged sha256 request now leases db db' record)
    (journaled : Journaled sha256 db) :
    Entered sha256 (records db) (snapshotOf sha256 request now db) record where
  decided := h.decided
  recorded := by
    rw [← journaled.previousHash_eq]
    exact h.recorded
  sequence := by
    rw [← journaled.counter]
    rfl
  cursor := journaled.cursor
  deficits := fun queue hqueue => by
    rw [← journaled.deficits]
    obtain ⟨key, _, hmap⟩ := List.mem_filterMap.mp hqueue
    obtain ⟨row, hrow, rfl⟩ := Option.map_eq_some_iff.mp hmap
    unfold deficitOf
    rw [hrow]
    rfl

theorem Journaled.logged (journaled : Journaled sha256 db)
    (h : Logged sha256 request now leases db db' record) : Journaled sha256 db' := by
  have hentered := h.entered journaled
  refine ⟨?_, ?_, ?_, ?_, ?_⟩
  · rw [h.records_eq]
    exact .snoc journaled.committed hentered
  · rw [h.log]
    refine List.forall_mem_append.mpr ⟨journaled.keyed, ?_⟩
    rw [List.forall_mem_singleton]
    exact ⟨rfl, rfl⟩
  · rw [h.counter, h.records_eq, journaled.counter, List.length_append, List.length_singleton]
    rfl
  · rw [h.cursor, h.records_eq, latestCursor_append]
  · intro key
    rw [h.deficits, h.records_eq, latestDeficit_append, journaled.deficits]

theorem Granted.issued (h : Granted policy sha256 lease yard yard') (id : String) :
    yard'.issued id = yard.issued id + if lease.jobID = id then 1 else 0 := by
  obtain ⟨move, attempt, hvalid, rfl, hid, _, hnumber, _, habsent, hattempt, _⟩ := h.exists_move
  have hnext : move.next.attemptNo = move.row.attemptNo + 1 := by
    rcases hvalid.kind.attempts_cases hattempt with ⟨_, hold, _⟩ | ⟨_, hnext, _⟩
    · rw [habsent] at hold
      cases hold
    · exact hnext
  rw [Yard.issued_apply hvalid, ← hid]
  by_cases hsame : move.id = id
  · rw [if_pos hsame, ← hsame, Function.update_self, hnext, Yard.issued_of_get? hvalid.found]
  · rw [if_neg hsame, Function.update_of_ne (Ne.symm hsame), add_zero]

theorem Grants.issued (h : Grants policy sha256 leases yard yard') (id : String) :
    yard'.issued id = yard.issued id + ((leases.map Lease.jobID).count id : Nat) := by
  induction h with
  | nil => simp
  | @cons lease leases _ _ _ head _ ih =>
    rw [ih, head.issued, List.map_cons, List.count_cons]
    by_cases hsame : lease.jobID = id
    · simp only [hsame, if_true, beq_self_eq_true]
      omega
    · simp [hsame]

structure Explained (sha256 : Hash) (db : Database) : Prop extends Journaled sha256 db where
  consecutive : Consecutive (yardOf db)
  counted : ∀ id, (yardOf db).issued id = grantCount (records db) id

theorem Explained.acquire (h : Explained sha256 db) (sound : Sound (yardOf db))
    (hrun : acquire sha256 request tokens now db = .ok leases db') :
    Explained sha256 db' := by
  have hgrants := acquire_any hrun
  rcases acquire_logs sound hrun with ⟨_, _, rfl⟩ | ⟨record, hlogged⟩
  · exact h
  · refine ⟨h.toJournaled.logged hlogged, h.consecutive.micros (micros_of_steps hgrants.steps), ?_⟩
    intro id
    rw [hgrants.issued id, h.counted, hlogged.records_eq, grantCount_append, hlogged.leases,
      List.count_eq_countP, List.countP_map]
    rfl

theorem Explained.quiet (h : Explained env.sha256 db) (quiet : grantsLeases op = false)
    (hsteps : ReflTransGen (Step (Policy.during anyPolicy op)) (yardOf db) (yardOf db'))
    (hrun : op.program env options now db = .ok reply db') : Explained env.sha256 db' := by
  have hsame := Preserves.ok (program_relates (aloof_fairness.lives now _)
    ((outside_fairness quiet).writes now) fun _ => aloof_fairness.links) hrun
  have hquiet : ¬(Policy.during anyPolicy op).granting := by
    change ¬grantsLeases op = true
    rw [quiet]
    exact Bool.false_ne_true
  refine ⟨h.toJournaled.same hsame, h.consecutive.micros (micros_of_steps hsteps), ?_⟩
  intro id
  rw [issued_of_micros hquiet (micros_of_steps hsteps), h.counted]
  unfold records
  injection hsame with _ _ hlog _
  rw [hlog]

theorem Explained.step (sound : Sound (yardOf store.db)) (h : Explained env.sha256 store.db) :
    Explained env.sha256 (step env store call).2.db := by
  have hsteps : ReflTransGen (Step (Policy.during anyPolicy call.op)) (yardOf store.db)
      (yardOf (Store.step env store call).2.db) :=
    step_any sound
  rcases step_cases env store call with hsame | ⟨now, reply, _, _, hrun⟩
  · rw [hsame]
    exact h
  · obtain ⟨op, reading⟩ := call
    cases hgrants : grantsLeases op with
    | false => exact h.quiet hgrants hsteps hrun
    | true =>
      cases op with
      | acquire request tokens =>
        obtain ⟨leases, _, hacquire⟩ := bind_pure_ok hrun
        exact h.acquire sound hacquire
      | _ => cases hgrants

theorem explained_fresh (sha256 : Hash) (options : Options) :
    Explained sha256 (freshStore options).db where
  committed := .nil
  keyed := fun _ h => nomatch h
  counter := rfl
  cursor := rfl
  deficits := fun _ => rfl
  consecutive := fun _ _ hpositive hle => absurd hle (Int.not_le.mpr hpositive)
  counted := fun _ => rfl

theorem explained_run (env : Env) (options : Options) (activities : List Activity) :
    Explained env.sha256 (run env (freshStore options) activities).db :=
  run_kept (fun _ _ sound h => h.step sound) (sound_fresh options)
    (explained_fresh env.sha256 options) activities

end RailYard.Refinement
