import RailYard.Refinement.Firing
import RailYard.Properties.Submissions
import RailYard.Properties.Reserve

/-! Cron triggers. However calls of `FireDueCron` overlap, an occurrence has one
job; the times of the triggers are another matter, since they are stored in 64 bits
and a schedule may have no next time at all. -/
namespace RailYard.Properties
open Library Domain Store Server
open Refinement

variable {env : Env} {options : Options}

/-- No call of `FireDueCron` has begun. -/
def cronStart (options : Options) : CronState := ⟨freshStore options, [], []⟩

def Creates (state state' : CronState) : Prop :=
  state'.store.db.jobs = state.store.db.jobs ∨
    ∃ yield row, state'.yields = state.yields ++ [yield] ∧ yield.duplicate = false ∧
      state.store.db.jobs.get? yield.jobID = none ∧
      state'.store.db.jobs = state.store.db.jobs.insert yield.jobID row

theorem advance_creates (sound : CronSound env state) (hevent : ∀ call, event ≠ .call call) :
    Creates state (state.advance env event) := by
  have hstep := cronStep env state event
  generalize state.advance env event = state' at hstep ⊢
  cases hstep with
  | call call => exact (hevent call rfl).elim
  | refused _ hperform => exact .inl (congrArg Database.jobs (perform_error hperform))
  | @submitted _ _ _ _ _ _ _ duplicate _ _ _ hperform =>
    have hsubmitted := perform_submitted sound.registry hperform
    cases duplicate with
    | true => exact .inl (congrArg Database.jobs (hsubmitted.again rfl))
    | false =>
      obtain ⟨_, habsent, row, hinsert⟩ := hsubmitted.fresh rfl
      exact .inr ⟨_, row, rfl, rfl, habsent, hinsert⟩
  | recorded _ hrun =>
    obtain ⟨_, _, _, hdb⟩ := recordOccurrence_ok hrun
    have hjobs := congrArg Database.jobs hdb
    exact .inl hjobs
  | _ => exact .inl rfl

/-- What a call at `now` that overlaps no other does, whatever else goes on: it
submits one job at most for each trigger, and each trigger for which it has
submitted one is at the first occurrence after `now` once the call has ended. -/
def FiresAlone (env : Env) (state : CronState) (now : Time) (limit : Int)
    (events : List CronEvent) : Prop :=
  let reached := (state.advance env (.fire now limit)).run env events
  ∃ fired, reached.yields = state.yields ++ fired ∧ (fired.map Yield.triggerID).Nodup ∧
    (reached.firings[state.firings.length]? = some ⟨now, [], none⟩ →
      ∀ yield ∈ fired, ∃ row next, reached.store.db.cronTriggers.get? yield.triggerID = some row ∧
        env.parseCron row.expression = some next ∧ timeFromDB row.nextFireAt = next now)

theorem firesAlone (sound : CronSound env state) (hrange : FiresInRange env state (.fire now limit))
    (hevents : ∀ event ∈ events, event.alone state.firings.length = true) :
    FiresAlone env state now limit events := by
  obtain ⟨_, fired, pending, rest, halone⟩ := onItsWay_run sound now limit hevents
  refine ⟨fired, halone.yields, (List.nodup_append.mp halone.distinct).1, ?_⟩
  intro hended yield hyield
  have hfiring := halone.firing
  rw [hended] at hfiring
  rcases halone.advanced yield hyield with
    ⟨entry, hentry, htrigger, row, next, hrow, hread, hnext, htime⟩ | ⟨entry, hpending, _⟩
  · refine ⟨row, next, htrigger ▸ hrow, hread.expression ▸ hnext, ?_⟩
    exact htime.trans (hrange.2 entry hentry next hnext)
  · cases pending with
    | none => cases hpending
    | some submitted => cases hfiring

/-- At most once for each occurrence, in every interleaving. The times are right in
every run whose calls of `FireDueCron` begin at times that can be stored and find
due triggers whose next times can be stored. -/
theorem cron_fires_once (env : Env)
    (hnext : ∀ expression next, env.parseCron expression = some next → ∀ time, time < next time)
    (options : Options) (events : List CronEvent) :
    let state := (cronStart options).run env events
    (state.yields.Pairwise SameJob ∧
      ∀ event, (∀ call, event ≠ .call call) → Creates state (state.advance env event)) ∧
    (Throughout (CronState.advance env) (FiresInRange env) (cronStart options) events →
      (∀ event, Increasing state.store.db (state.advance env event).store.db) ∧
      ∀ now limit, FiresInRange env state (.fire now limit) →
        (∀ alone, (∀ event ∈ alone, event.alone state.firings.length = true) →
          FiresAlone env state now limit alone) ∧
        ∀ elapsed entropy, ∃ alone, (∀ event ∈ alone, event.alone state.firings.length = true) ∧
          Reaches ((state.advance env (.fire now limit)).run env alone) state.firings.length now
            (fireDueCron env state.store now limit elapsed entropy).2 []) := by
  intro state
  have sound : CronSound env state := (cronSound_fresh env options).run events
  refine ⟨⟨sound.once, fun event hevent => advance_creates sound hevent⟩, fun hevents => ?_⟩
  have range : InRange env state :=
    Throughout.keeps (fun _ _ hstate hevent => hstate.advance hevent)
      (fun _ hfiring => nomatch hfiring) hevents
  refine ⟨advance_increasing hnext sound range, fun now limit hfire => ⟨?_, ?_⟩⟩
  · exact fun alone halone => firesAlone sound hfire halone
  · intro elapsed entropy
    exact ⟨_, fireTurns_alone _ elapsed entropy 0 _,
      run_fireTurns env state now limit elapsed entropy⟩

def daily : Env := { lengthEnv with parseCron := parseDaily }

theorem daily_next (expression : String) (next : Time → Time)
    (h : daily.parseCron expression = some next) (time : Time) : time < next time := by
  rw [parseDaily_some h]
  exact Int.lt_ediv_add_one_mul_self time (by decide)

/-- The call is at noon of the fourth day: three occurrences have passed. -/
theorem cron_fires_once_nightly :
    let state := (cronStart defaultOptions).run daily [.call (nightly "digest")]
    FiresInRange daily state (.fire 302400000000000 1) ∧
      FiresAlone daily state 302400000000000 1 [.submit 0 0 (entropyOf 2), .record 0] := by
  intro state
  have hfire : FiresInRange daily state (.fire 302400000000000 1) := by
    refine ⟨by decide, fun entry _ next hnext => ?_⟩
    rw [parseDaily_some hnext]
    decide
  have hall := cron_fires_once daily daily_next defaultOptions [.call (nightly "digest")]
  refine ⟨hfire, ((hall.2 ⟨trivial, trivial⟩).2 302400000000000 1 hfire).1 _ ?_⟩
  decide +kernel

/-- At the last instant that can be stored the next time wraps around, and the
trigger goes back to the year 1677. -/
theorem next_fire_time_wraps :
    (∀ expression next, daily.parseCron expression = some next → ∀ time, time < next time) ∧
      let state := (cronStart defaultOptions).run daily
        [.call (nightly "digest"), .fire (2 ^ 63 - 1) 1, .submit 0 0 (entropyOf 2)]
      ¬Increasing state.store.db (state.advance daily (.record 0)).store.db := by
  refine ⟨daily_next, ?_⟩
  intro state h
  have hbefore : (state.store.db.cronTriggers.get? (newID (entropyOf 1))).map
      CronRow.nextFireAt = some 86400000000000 := by decide +kernel
  have hafter : ((state.advance daily (.record 0)).store.db.cronTriggers.get?
      (newID (entropyOf 1))).map CronRow.nextFireAt = some (-9223371273709551616) := by
    decide +kernel
  obtain ⟨row, hrow, htime⟩ := Option.map_eq_some_iff.mp hbefore
  obtain ⟨row', hrow', htime'⟩ := Option.map_eq_some_iff.mp hafter
  have hlater := h _ row row' hrow hrow' (by omega)
  omega

section Occurrences

/-- The schedule of an expression: `Next` is the earliest instant after its argument
at which it occurs, or the zero time. -/
def CronLaw (env : Env) (expression : String) (occurs : Time → Prop) : Prop :=
  ∀ next, env.parseCron expression = some next → ∀ time,
    next time = zeroTime ∨ (time < next time ∧ occurs (next time) ∧
      ∀ other, time < other → other < next time → ¬occurs other)

variable {expression : String} {occurs : Time → Prop}

theorem CronLaw.next_occurs (law : CronLaw env expression occurs)
    (hnext : env.parseCron expression = some next) (hfits : int64 (next time) = next time) :
    time < next time ∧ occurs (next time) := by
  rcases law next hnext time with hzero | ⟨hlater, hoccurs, _⟩
  · rw [hzero] at hfits
    exact absurd hfits (by decide)
  · exact ⟨hlater, hoccurs⟩

/-- The time of a trigger with this expression is an occurrence after its creation. -/
def Genuine (expression : String) (occurs : Time → Prop) (row : CronRow) : Prop :=
  row.expression = expression → occurs row.nextFireAt ∧ row.createdAt < row.nextFireAt

/-- The job of a yield is that of a trigger, and if the trigger has this expression it
is for an occurrence between the trigger's creation and the time of the call. -/
def RealYield (expression : String) (occurs : Time → Prop) (db : Database) (yield : Yield) : Prop :=
  ∃ row, db.cronTriggers.get? yield.triggerID = some row ∧
    (row.expression = expression → occurs yield.nominal ∧
      timeFromDB row.createdAt < yield.nominal ∧ yield.nominal ≤ yield.firedAt)

/-- The time of a call and the first occurrence after it can be stored whenever a
trigger gets its time from them, at its creation and when it is fired. -/
def SchedulesInRange (env : Env) (state : CronState) (event : CronEvent) : Prop :=
  FiresInRange env state event ∧ ∀ call, event = .call call → ∀ id row,
    state.store.db.cronTriggers.get? id = none →
    (state.advance env event).store.db.cronTriggers.get? id = some row →
    Storable env (callTime state.store call) [(id, row)]

structure OnSchedule (env : Env) (expression : String) (occurs : Time → Prop)
    (state : CronState) : Prop where
  sound : CronSound env state
  range : InRange env state
  triggers : ∀ id row, state.store.db.cronTriggers.get? id = some row →
    Genuine expression occurs row
  due : ∀ firing ∈ state.firings, ∀ entry ∈ firing.due, Genuine expression occurs entry.2
  yields : ∀ yield ∈ state.yields, RealYield expression occurs state.store.db yield

theorem OnSchedule.genuine (law : CronLaw env expression occurs)
    (h : OnSchedule env expression occurs state) (hevent : SchedulesInRange env state event)
    (id : String) (row : CronRow)
    (hrow : (state.advance env event).store.db.cronTriggers.get? id = some row) :
    Genuine expression occurs row := by
  rcases advance_triggers env state event with
    hsame | ⟨call, _, _, newID, new, heq, _, habsent, hnew, _, hinsert⟩ |
      ⟨index, now, entry, rest, jobID, next, _, hfiring, hmodify⟩
  · rw [hsame] at hrow
    exact h.triggers id row hrow
  · by_cases hid : id = newID
    · obtain ⟨hnow, hfits⟩ := hevent.2 call heq id row (hid ▸ habsent) hrow
      rw [hinsert, hid, Table.get?_insert_self _ _ habsent] at hrow
      cases hrow
      intro hexpression
      obtain ⟨next, hnext, htime⟩ := hnew.schedule
      have hfits := hfits _ (List.mem_singleton_self _) next hnext
      obtain ⟨hlater, hoccurs⟩ := law.next_occurs (hexpression ▸ hnext) hfits
      rw [htime, hnew.createdAt]
      unfold timeToDB
      rw [hfits, hnow]
      exact ⟨hoccurs, hlater⟩
    · rw [hinsert, Table.get?_insert_ne _ _ hid] at hrow
      exact h.triggers id row hrow
  · rw [hmodify, Table.get?_modify] at hrow
    split at hrow
    · obtain ⟨old, hold, rfl⟩ := Option.map_eq_some_iff.mp hrow
      have hgenuine := h.triggers _ old hold
      have hmem := List.mem_of_getElem? hfiring
      obtain ⟨⟨schedule, hschedule, rfl⟩, _⟩ := (h.sound.firings _ hmem).head
      obtain ⟨hnow, hstored⟩ := h.range _ hmem
      have hfits := hstored entry (List.mem_cons_self ..) schedule hschedule
      obtain ⟨hdue, hentry⟩ := (h.sound.firings _ hmem).due entry (List.mem_cons_self ..)
      obtain ⟨found, hfound, hread⟩ :=
        (h.sound.firings _ hmem).read entry (List.mem_cons_self ..)
      rw [hold] at hfound
      cases hfound
      unfold postponed
      split
      · rename_i hguard
        intro hexpression
        change old.expression = expression at hexpression
        obtain ⟨hlater, hoccurs⟩ :=
          law.next_occurs (hexpression ▸ hread.expression ▸ hschedule) hfits
        constructor
        · change occurs (int64 (schedule now))
          rw [hfits]
          exact hoccurs
        · calc old.createdAt < old.nextFireAt := (hgenuine hexpression).2
            _ = entry.2.nextFireAt := hguard.trans hentry
            _ ≤ int64 now := hdue
            _ = now := hnow
            _ < schedule now := hlater
            _ = int64 (schedule now) := hfits.symm
      · exact hgenuine
    · exact h.triggers id row hrow

theorem RealYield.kept (h : RealYield expression occurs db yield) (hkept : TriggersKept db db') :
    RealYield expression occurs db' yield := by
  obtain ⟨row, hrow, hreal⟩ := h
  obtain ⟨row', hrow', hread⟩ := hkept _ row hrow
  refine ⟨row', hrow', ?_⟩
  rw [hread]
  exact hreal

theorem OnSchedule.advance (law : CronLaw env expression occurs)
    (h : OnSchedule env expression occurs state) (hevent : SchedulesInRange env state event) :
    OnSchedule env expression occurs (state.advance env event) where
  sound := h.sound.advance event
  range := h.range.advance hevent.1
  triggers := h.genuine law hevent
  due firing hfiring entry hentry := by
    rcases advance_firings env state event hfiring with
      ⟨old, hold, _, hdue⟩ | ⟨now, limit, _, rfl⟩
    · exact h.due old hold entry (hdue hentry)
    · exact h.triggers entry.1 entry.2 (mem_dueTriggers hentry).1
  yields yield hyield := by
    rcases advance_yields env state event with
      hsame | ⟨index, now, entry, rest, jobID, duplicate, hfiring, hnew⟩
    · rw [hsame] at hyield
      exact (h.yields yield hyield).kept (advance_kept env state event)
    · rw [hnew] at hyield
      rcases List.mem_append.mp hyield with hold | hadded
      · exact (h.yields yield hold).kept (advance_kept env state event)
      · rw [List.mem_singleton] at hadded
        subst hadded
        have hmem := List.mem_of_getElem? hfiring
        obtain ⟨row, hrow, hread⟩ := (h.sound.firings _ hmem).read entry (List.mem_cons_self ..)
        have hgenuine := h.due _ hmem entry (List.mem_cons_self ..)
        have hdue := ((h.sound.firings _ hmem).due entry (List.mem_cons_self ..)).1
        have hreal : RealYield expression occurs state.store.db
            ⟨entry.1, timeFromDB entry.2.nextFireAt, now, jobID, duplicate⟩ := by
          refine ⟨row, hrow, ?_⟩
          rw [hread]
          intro hexpression
          obtain ⟨hoccurs, hcreated⟩ := hgenuine hexpression
          exact ⟨hoccurs, hcreated, hdue.trans (h.range _ hmem).1.le⟩
        exact hreal.kept (advance_kept env state event)

theorem onSchedule_start (env : Env) (expression : String) (occurs : Time → Prop)
    (options : Options) : OnSchedule env expression occurs (cronStart options) where
  sound := cronSound_fresh env options
  range _ hfiring := nomatch hfiring
  triggers _ _ hrow := nomatch hrow
  due _ hfiring := nomatch hfiring
  yields _ hyield := nomatch hyield

/-- Every job that `FireDueCron` submits for a trigger with a given expression is for
an occurrence of its schedule after its creation and not after the time of the call,
in every run in which the times that the triggers get can be stored. -/
theorem cron_fires_real_occurrences (env : Env) (expression : String) (occurs : Time → Prop)
    (law : CronLaw env expression occurs) (options : Options) (events : List CronEvent)
    (h : Throughout (CronState.advance env) (SchedulesInRange env) (cronStart options) events) :
    let state := (cronStart options).run env events
    (∀ yield ∈ state.yields, RealYield expression occurs state.store.db yield) ∧
      ((∀ time, ¬occurs time) → ∀ yield ∈ state.yields, ∀ row,
        state.store.db.cronTriggers.get? yield.triggerID = some row →
          row.expression ≠ expression) := by
  intro state
  have hyields : ∀ yield ∈ state.yields, RealYield expression occurs state.store.db yield :=
    (Throughout.keeps (fun _ _ hstate hevent => hstate.advance law hevent)
      (onSchedule_start env expression occurs options) h).yields
  refine ⟨hyields, ?_⟩
  intro hnever yield hyield row hrow hexpression
  obtain ⟨found, hfound, hreal⟩ := hyields yield hyield
  rw [hrow] at hfound
  cases hfound
  exact hnever _ (hreal hexpression).1

def midnight (time : Time) : Prop := time % 86400000000000 = 0

theorem midnightAfter_law : CronLaw daily "@daily" midnight := by
  intro next hnext time
  rw [parseDaily_some (show parseDaily "@daily" = some next from hnext)]
  have harithmetic : ∀ time other : Int, time < (time / 86400000000000 + 1) * 86400000000000 ∧
      (time / 86400000000000 + 1) * 86400000000000 % 86400000000000 = 0 ∧
      (time < other → other < (time / 86400000000000 + 1) * 86400000000000 →
        ¬other % 86400000000000 = 0) := by
    omega
  obtain ⟨hlater, hmidnight, _⟩ := harithmetic time 0
  exact .inr ⟨hlater, hmidnight, fun other => (harithmetic time other).2.2⟩

theorem cron_fires_real_occurrences_nightly :
    let events := [.call (nightly "digest"), .fire 302400000000000 1, .submit 0 0 (entropyOf 2)]
    CronLaw daily "@daily" midnight ∧
      Throughout (CronState.advance daily) (SchedulesInRange daily)
        (cronStart defaultOptions) events ∧
      ∀ yield ∈ ((cronStart defaultOptions).run daily events).yields,
        RealYield "@daily" midnight ((cronStart defaultOptions).run daily events).store.db
          yield := by
  intro events
  have hstorable : ∀ (now : Time) due, int64 now = now →
      int64 (midnightAfter now) = midnightAfter now → Storable daily now due := by
    refine fun now due hnow hnext => ⟨hnow, fun entry _ next hparsed => ?_⟩
    rw [parseDaily_some hparsed]
    exact hnext
  have h : Throughout (CronState.advance daily) (SchedulesInRange daily)
      (cronStart defaultOptions) events := by
    refine ⟨⟨trivial, ?_⟩, ⟨hstorable 302400000000000 _ (by decide) (by decide), ?_⟩,
      ⟨trivial, ?_⟩, trivial⟩
    · rintro call ⟨⟩ id row _ _
      exact hstorable 1 _ (by decide) (by decide)
    · exact fun _ hcall => nomatch hcall
    · exact fun _ hcall => nomatch hcall
  exact ⟨midnightAfter_law, h, (cron_fires_real_occurrences daily "@daily" midnight
    midnightAfter_law defaultOptions events h).1⟩

def noInstant : Env :=
  { lengthEnv with
    parseCron := fun expression =>
      if expression = "0 0 30 2 *" then some fun _ => zeroTime else none }

def neverDue : Call :=
  ⟨.createCronTrigger {
    tenantID := "tenant"
    expression := "0 0 30 2 *"
    job := { payload := { type := .noop } }
    actor := "api"
    idempotencyKey := "never"
    requestDigest := "digest" } (entropyOf 1), ⟨1, 0⟩⟩

/-- The zero time is stored as an instant of the year 1754, so the trigger is due at
once and a job is created for it. -/
theorem cron_fires_without_occurrence :
    CronLaw noInstant "0 0 30 2 *" (fun _ => False) ∧
      ∃ yield ∈ ((cronStart defaultOptions).run noInstant
        [.call neverDue, .fire 1 1, .submit 0 0 (entropyOf 2)]).yields,
        yield.duplicate = false ∧ yield.nominal = -6795364578871345152 := by
  refine ⟨?_, by decide +kernel⟩
  rintro next ⟨⟩ time
  exact .inl rfl

end Occurrences

end RailYard.Properties
