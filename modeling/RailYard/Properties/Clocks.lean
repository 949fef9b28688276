import RailYard.Properties.Records
import RailYard.Properties.Reserve
import RailYard.Refinement.Stamps

/-! Time over whole runs with restarts. What the tables of jobs and events say
about time never runs backwards, because a store that is opened again starts from
the latest time in them; decisions that grant nothing leave no time there. -/
namespace RailYard.Properties
open Library.Transaction Domain Store
open Scheduler Lifecycle Refinement

section History

/-- A time that is written later is none of those before, or not before any. -/
def NotBackdated (times : List Int) (before : Prop) (time : Int) : Prop :=
  before ∨ ∀ earlier ∈ times, earlier ≤ time

/-- The times at two moments of a run, compared with times known at the first. -/
structure Forward (times : List Int) (db db' : Database) : Prop where
  jobs : ∀ id job, db'.jobs.get? id = some job →
    NotBackdated times (db.jobs.get? id = some job) job.updatedAt
  completions : ∀ id completion, db'.jobCompletions.get? id = some completion →
    NotBackdated times (db.jobCompletions.get? id = some completion) completion.committedAt
  leases : ∀ key attempt, db'.attempts.get? key = some attempt →
    NotBackdated times ((db.attempts.get? key).map AttemptRow.leasedAt = some attempt.leasedAt)
      attempt.leasedAt
  heartbeats : ∀ key attempt, db'.attempts.get? key = some attempt →
    NotBackdated times
      ((db.attempts.get? key).map AttemptRow.heartbeatAt = some attempt.heartbeatAt)
      attempt.heartbeatAt
  receipts : ∀ key attempt time, db'.attempts.get? key = some attempt →
    attempt.completedAt = some time →
    NotBackdated times ((db.attempts.get? key).bind AttemptRow.completedAt = some time) time
  expiry : ∀ key attempt, db.attempts.get? key = some attempt →
    ∃ attempt', db'.attempts.get? key = some attempt' ∧ attempt.expiresAt ≤ attempt'.expiresAt

theorem Forward.refl (times : List Int) (db : Database) : Forward times db db where
  jobs _ _ hjob := .inl hjob
  completions _ _ hcompletion := .inl hcompletion
  leases _ _ hattempt := .inl (by rw [hattempt]; rfl)
  heartbeats _ _ hattempt := .inl (by rw [hattempt]; rfl)
  receipts _ _ _ hattempt htime := .inl (by rw [hattempt]; exact htime)
  expiry _ attempt hattempt := ⟨attempt, hattempt, le_rfl⟩

variable {env : Env} {times : List Int} {db db' db'' : Database}

theorem Forward.trans (first : Forward times db db') (second : Forward times db' db'') :
    Forward times db db'' where
  jobs id job hjob := by
    rcases second.jobs id job hjob with hbefore | hlater
    · exact first.jobs id job hbefore
    · exact .inr hlater
  completions id completion hcompletion := by
    rcases second.completions id completion hcompletion with hbefore | hlater
    · exact first.completions id completion hbefore
    · exact .inr hlater
  leases key attempt hattempt := by
    rcases second.leases key attempt hattempt with hbefore | hlater
    · obtain ⟨middle, hmiddle, heq⟩ := Option.map_eq_some_iff.mp hbefore
      rw [← heq]
      exact first.leases key middle hmiddle
    · exact .inr hlater
  heartbeats key attempt hattempt := by
    rcases second.heartbeats key attempt hattempt with hbefore | hlater
    · obtain ⟨middle, hmiddle, heq⟩ := Option.map_eq_some_iff.mp hbefore
      rw [← heq]
      exact first.heartbeats key middle hmiddle
    · exact .inr hlater
  receipts key attempt time hattempt htime := by
    rcases second.receipts key attempt time hattempt htime with hbefore | hlater
    · obtain ⟨middle, hmiddle, heq⟩ := Option.bind_eq_some_iff.mp hbefore
      exact first.receipts key middle time hmiddle heq
    · exact .inr hlater
  expiry key attempt hattempt := by
    obtain ⟨middle, hmiddle, hle⟩ := first.expiry key attempt hattempt
    obtain ⟨last, hlast, hle'⟩ := second.expiry key middle hmiddle
    exact ⟨last, hlast, hle.trans hle'⟩

theorem forward_of_stamps (h : Stamps now db db')
    (hbound : ∀ earlier ∈ times, earlier ≤ timeToDB now) : Forward times db db' := by
  have hlater : ∀ {time : Int}, time = timeToDB now → ∀ earlier ∈ times, earlier ≤ time :=
    fun heq => by rwa [heq]
  have hkept : ∀ {key : String × Int} {attempt before : AttemptRow},
      db'.attempts.get? key = some attempt → db.attempts.get? key = some before →
      Later now before attempt := by
    intro key attempt before hattempt hbefore
    obtain ⟨found, hfound, hrow⟩ := h.attempts.kept key before hbefore
    change db'.attempts.get? key = some found at hfound
    rw [hattempt, Option.some.injEq] at hfound
    rwa [hfound]
  refine ⟨?_, ?_, ?_, ?_, ?_, ?_⟩
  · intro id job hjob
    exact (h.jobs id job hjob).imp_right hlater
  · intro id completion hcompletion
    exact (h.completions id completion hcompletion).imp_right hlater
  · intro key attempt hattempt
    cases hbefore : db.attempts.get? key with
    | none => exact .inr (hlater (h.attempts.opened key attempt hbefore hattempt).leasedAt)
    | some before => exact .inl (congrArg some (hkept hattempt hbefore).leasedAt.symm)
  · intro key attempt hattempt
    cases hbefore : db.attempts.get? key with
    | none => exact .inr (hlater (h.attempts.opened key attempt hbefore hattempt).heartbeatAt)
    | some before =>
      rcases (hkept hattempt hbefore).heartbeatAt with hsame | hnow
      · exact .inl (congrArg some hsame.symm)
      · exact .inr (hlater hnow)
  · intro key attempt time hattempt htime
    cases hbefore : db.attempts.get? key with
    | none =>
      rcases (h.attempts.opened key attempt hbefore hattempt).completedAt with hnone | hnow
      · rw [htime] at hnone
        cases hnone
      · exact .inr (hlater (Option.some.inj (htime.symm.trans hnow)))
    | some before =>
      rcases (hkept hattempt hbefore).completedAt with hsame | hnow
      · exact .inl (hsame.symm.trans htime)
      · exact .inr (hlater (Option.some.inj (htime.symm.trans hnow)))
  · intro key attempt hattempt
    obtain ⟨attempt', hattempt', hrow⟩ := h.attempts.kept key attempt hattempt
    exact ⟨attempt', hattempt', hrow.expiresAt⟩

theorem forward_calls (timely : Timely store)
    (htimes : ∀ time ∈ times, time ∈ store.db.events.map EventRow.occurredAt) (calls : List Call) :
    Forward times store.db (runCalls env store calls).db := by
  induction calls generalizing store with
  | nil => exact .refl times store.db
  | cons call rest ih =>
    obtain ⟨now, hlast, hfits, hstamps, _⟩ := step_stamps env store call
    have hbound : ∀ time ∈ times, time ≤ timeToDB now := by
      intro time hmem
      rw [show timeToDB now = now from hfits]
      exact (timely.persisted time (occurred_persisted (htimes time hmem))).1.trans hlast
    have hkept : ∀ time ∈ times,
        time ∈ (step env store call).2.db.events.map EventRow.occurredAt := by
      intro time hmem
      obtain ⟨count, heq⟩ := hstamps.occurred
      change List.map EventRow.occurredAt _ = List.map EventRow.occurredAt _ ++ _ at heq
      rw [heq]
      exact List.mem_append_left _ (htimes time hmem)
    exact (forward_of_stamps hstamps hbound).trans (ih (timely.step env call) hkept)

def EventsInOrder (db : Database) : Prop :=
  ∀ first ∈ db.events, ∀ second ∈ db.events, first.eventSeq ≤ second.eventSeq →
    first.occurredAt ≤ second.occurredAt

theorem eventsInOrder_of_timely (timely : Timely store)
    (numbered : Numbered (store.db.events.map entry)) : EventsInOrder store.db := by
  intro first hfirst second hsecond hle
  obtain ⟨i, hi, rfl⟩ := List.mem_iff_getElem.mp hfirst
  obtain ⟨j, hj, rfl⟩ := List.mem_iff_getElem.mp hsecond
  have hseq := List.pairwise_iff_getElem.mp (events_ascending numbered)
  have htime := List.pairwise_iff_getElem.mp (List.pairwise_map.mp timely.ordered)
  rcases lt_trichotomy i j with hless | rfl | hmore
  · exact htime i j hi hj hless
  · exact le_rfl
  · exact absurd hle (not_le.mpr (hseq j i hj hi hmore))

theorem forward_run (env : Env) (options : Options) (first : List Activity) (calls : List Call) :
    let store := run env (freshStore options) first
    EventsInOrder store.db ∧ Forward (store.db.events.map EventRow.occurredAt) store.db
      (runCalls env store calls).db := by
  intro store
  have timely : Timely store := by
    obtain ⟨before, hbefore⟩ := exists_calls env (freshStore options) first
    change Timely (run env (freshStore options) first)
    rw [hbefore]
    exact timely_calls env (timely_fresh options) before
  exact ⟨eventsInOrder_of_timely timely (sound_run env options first).chronicle.numbered,
    forward_calls timely (fun _ hmem => hmem) calls⟩

/-- At every point of a run the events are in order, and from there on nothing is written
that is older than one of them. The same holds after every single transaction, so also
between those that the loops over triggers and messages make. -/
theorem history_never_runs_backwards (env : Env) (options : Options)
    (first second : List Activity) (calls later : List Call) :
    let store := run env (freshStore options) first
    let middle := runCalls env store calls
    (EventsInOrder store.db ∧ Forward (store.db.events.map EventRow.occurredAt) store.db
      (run env (freshStore options) (first ++ second)).db) ∧
    EventsInOrder middle.db ∧ Forward (middle.db.events.map EventRow.occurredAt) middle.db
      (runCalls env store (calls ++ later)).db := by
  intro store middle
  constructor
  · obtain ⟨after, hafter⟩ := exists_calls env store second
    rw [run_append, show run env (run env (freshStore options) first) second = _ from hafter]
    exact forward_run env options first after
  · have hmiddle : middle = run env (freshStore options) (first ++ calls.map .call) := by
      rw [run_append, run_calls]
    rw [runCalls_append]
    change EventsInOrder middle.db ∧ Forward _ middle.db (runCalls env middle later).db
    rw [hmiddle]
    exact forward_run env options (first ++ calls.map .call) later

end History

section Decisions

variable {env : Env}

def decisionTimes (db : Database) : List Int :=
  (decisionRecords db).map fun record => record.input.logicalTimeNS

/-- The decisions in the order of their sequence numbers have ascending times. -/
def DecisionsInOrder (db : Database) : Prop := (decisionTimes db).Pairwise (· ≤ ·)

def RestartsInTime (store : StoreState) : Activity → Prop
  | .call ⟨.reopen _, _⟩ =>
    ∀ time ∈ decisionTimes store.db, time ≤ (initializeLogicalClock store.db).lastTime
  | _ => True

theorem decision_of_step (sound : Sound (yardOf store.db)) :
    records (step env store call).2.db = records store.db ∨
      ∃ record, records (step env store call).2.db = records store.db ++ [record] ∧
        record.input.logicalTimeNS = (step env store call).2.clock.lastTime := by
  obtain ⟨op, reading⟩ := call
  cases hgrants : grantsLeases op with
  | false =>
    have hfair : fairnessOf (step env store ⟨op, reading⟩).2.db = fairnessOf store.db :=
      step_preserves aloof_fairness (outside_fairness hgrants)
    injection hfair with _ _ hlog _
    unfold records
    rw [hlog]
    exact .inl rfl
  | true =>
    cases op with
    | acquire request tokens =>
      cases hearly : request.early with
      | some reply =>
        change records (execute env store ⟨.acquire request tokens, reading⟩).2.db = _ ∨ _
        unfold execute
        rw [show (Op.acquire request tokens).early = some (reply.map .leases) from
          congrArg (Option.map _) hearly]
        exact .inl rfl
      | none =>
        rw [step_acquire hearly]
        rcases commit_cases (acquire env.sha256 request tokens (store.clock.writeTime reading))
          store.db with ⟨leases, db', hacquire, hcommit⟩ | ⟨error, hcommit⟩
        · rw [hcommit]
          rcases acquire_logs sound hacquire with ⟨_, _, rfl⟩ | ⟨record, hlogged⟩
          · exact .inl rfl
          · refine .inr ⟨record, hlogged.records_eq, ?_⟩
            rw [(recordOf_newRecord hlogged.recorded).1.canonical]
            exact store.clock.writeTime_fits reading
        · rw [hcommit]
          exact .inl rfl
    | _ => cases hgrants

/-- The decisions so far are in order and the clock is behind none of them. -/
structure DecisionsTimed (store : StoreState) : Prop where
  ordered : ((records store.db).map fun record => record.input.logicalTimeNS).Pairwise (· ≤ ·)
  past : ∀ record ∈ records store.db, record.input.logicalTimeNS ≤ store.clock.lastTime

theorem DecisionsTimed.step (h : DecisionsTimed store) (sound : Sound (yardOf store.db))
    (hopen : ∀ options, call.op = .reopen options → ∀ record ∈ records store.db,
      record.input.logicalTimeNS ≤ (initializeLogicalClock store.db).lastTime) :
    DecisionsTimed (step env store call).2 := by
  obtain ⟨now, hlast, _, _, hclock⟩ := step_stamps env store call
  rcases hclock with hclock | ⟨options, hop, hstep⟩
  · have hpast : ∀ record ∈ records store.db,
        record.input.logicalTimeNS ≤ (Store.step env store call).2.clock.lastTime := by
      intro record hrecord
      rw [hclock]
      exact (h.past record hrecord).trans hlast
    have hdecision : records (Store.step env store call).2.db = records store.db ∨ _ :=
      decision_of_step sound
    rcases hdecision with hsame | ⟨record, hmore, htime⟩
    · constructor
      · rw [hsame]
        exact h.ordered
      · rw [hsame]
        exact hpast
    · constructor
      · rw [hmore, List.map_append, List.map_singleton, List.pairwise_append]
        refine ⟨h.ordered, List.pairwise_singleton _ _, ?_⟩
        intro earlier hearlier later hlater
        obtain ⟨before, hbefore, rfl⟩ := List.mem_map.mp hearlier
        rw [List.mem_singleton.mp hlater, htime]
        exact hpast before hbefore
      · rw [hmore]
        refine List.forall_mem_append.mpr ⟨hpast, ?_⟩
        rw [List.forall_mem_singleton]
        exact htime.le
  · rw [hstep]
    exact ⟨h.ordered, hopen options hop⟩

theorem DecisionsTimed.calls {store : StoreState} {calls : List Call} (h : DecisionsTimed store)
    (sound : Sound (yardOf store.db)) (htriggered : ∀ call ∈ calls, triggered call.op = true) :
    DecisionsTimed (runCalls env store calls) := by
  induction calls generalizing store with
  | nil => exact h
  | cons call rest ih =>
    obtain ⟨hcall, hrest⟩ := List.forall_mem_cons.mp htriggered
    have hsteps : Relation.ReflTransGen (Step anyPolicy) (yardOf store.db)
        (yardOf (runCalls env store [call]).db) :=
      runCalls_ok sound (List.forall_mem_singleton.mpr hcall)
    refine ih (h.step sound fun options hop => ?_) (sound.steps hsteps) hrest
    rw [hop] at hcall
    cases hcall

theorem DecisionsTimed.advance (h : DecisionsTimed store) (sound : Sound (yardOf store.db))
    (explained : Explained env.sha256 store.db) (hrestart : RestartsInTime store activity) :
    DecisionsTimed (advance env store activity) := by
  by_cases hcall : ∃ call, activity = .call call
  · obtain ⟨⟨op, reading⟩, rfl⟩ := hcall
    refine h.step sound ?_
    rintro options rfl record hrecord
    refine hrestart _ (List.mem_map.mpr ⟨record, ?_, rfl⟩)
    rwa [explained.decisionRecords_eq]
  · obtain ⟨calls, htriggered, heq⟩ :=
      byCalls_advance env store activity fun call heq => hcall ⟨call, heq⟩
    rw [heq]
    exact h.calls sound htriggered

theorem DecisionsTimed.run (h : DecisionsTimed store) (sound : Sound (yardOf store.db))
    (explained : Explained env.sha256 store.db)
    (hrestarts : Along env RestartsInTime store activities) :
    DecisionsTimed (run env store activities) := by
  induction activities generalizing store with
  | nil => exact h
  | cons activity rest ih =>
    have hsteps : Relation.ReflTransGen (Step anyPolicy) (yardOf store.db)
        (yardOf (Store.advance env store activity).db) :=
      advance_ok trivial sound (keepsTo_any store activity)
    have hexplained : Explained env.sha256 (Store.run env store [activity]).db :=
      run_kept (fun _ _ sound h => h.step sound) sound explained [activity]
    exact ih (h.advance sound explained hrestarts.1) (sound.steps hsteps) hexplained hrestarts.2

/-- In every run whose restarts find no decision later than the times that they
read, the times of the decisions never run backwards. -/
theorem decisions_in_order (env : Env) (options : Options) (activities : List Activity)
    (h : Along env RestartsInTime (freshStore options) activities) :
    DecisionsInOrder (run env (freshStore options) activities).db := by
  have hstart : DecisionsTimed (freshStore options) :=
    ⟨List.Pairwise.nil, fun _ hrecord => nomatch hrecord⟩
  have htimed := hstart.run (sound_fresh options) (explained_fresh env.sha256 options) h
  unfold DecisionsInOrder decisionTimes
  rw [(explained_run env options activities).decisionRecords_eq]
  exact htimed.ordered

def askAt (time : Time) : Activity :=
  .call ⟨.acquire { workerID := "worker", availableSlots := 1, limit := 1, leaseTTL := 10 }
    fun index => entropyOf (index + 2).toUInt8, ⟨time, 0⟩⟩

def restart : Activity := .call ⟨.reopen defaultOptions, ⟨0, 0⟩⟩

theorem decisions_in_order_granted :
    let activities := [jobIn "a" 1 1, jobIn "a" 1 2, askAt 100, restart, askAt 50]
    Along lengthEnv RestartsInTime (freshStore defaultOptions) activities ∧
      DecisionsInOrder (run lengthEnv (freshStore defaultOptions) activities).db := by
  intro activities
  have halong : Along lengthEnv RestartsInTime (freshStore defaultOptions) activities := by
    refine ⟨trivial, trivial, trivial, ?_, trivial, trivial⟩
    change ∀ time ∈ _, time ≤ _
    decide +kernel
  exact ⟨halong, decisions_in_order lengthEnv defaultOptions activities halong⟩

/-- A decision that grants nothing is forgotten by the clock of the next start. -/
theorem decision_time_runs_backwards : ¬DecisionsInOrder (run lengthEnv (freshStore defaultOptions)
      [jobIn "a" 2 1, askAt 100, restart, askAt 50]).db := by
  have htimes : decisionTimes (run lengthEnv (freshStore defaultOptions)
      [jobIn "a" 2 1, askAt 100, restart, askAt 50]).db = [100, 50] := by
    decide +kernel
  unfold DecisionsInOrder
  rw [htimes]
  decide

end Decisions

end RailYard.Properties
