import RailYard.Refinement.Areas

/-! The times in the tables. Every call writes at one time, no earlier than any
time that is already there, and the clock of a store that is opened again starts
at the latest of them. -/
namespace RailYard.Refinement
open Library Library.Transaction Domain Store

section Columns

variable {κ ρ : Type} [DecidableEq κ] {column : ρ → Int} {time : Int}
  {table table' table'' : Table κ ρ}

def Written (column : ρ → Int) (time : Int) (table table' : Table κ ρ) : Prop :=
  ∀ key row, table'.get? key = some row → table.get? key = some row ∨ column row = time

namespace Written

theorem refl (column : ρ → Int) (time : Int) (table : Table κ ρ) :
    Written column time table table := fun _ _ => .inl

theorem trans (first : Written column time table table')
    (second : Written column time table' table'') : Written column time table table'' := by
  intro key row hrow
  rcases second key row hrow with hbefore | htime
  · exact first key row hbefore
  · exact .inr htime

theorem insert (habsent : table.get? key = none) (h : column row = time) :
    Written column time table (table.insert key row) := by
  intro other found hfound
  rw [Table.get?_insert, habsent] at hfound
  grind

theorem modify (h : ∀ row, column (change row) = time) :
    Written column time table (table.modify key change) := by
  intro other found hfound
  rw [Table.get?_modify] at hfound
  split at hfound
  · obtain ⟨row, _, rfl⟩ := Option.map_eq_some_iff.mp hfound
    exact .inr (h row)
  · exact .inl hfound

theorem mem (h : Written column time table table') {found : Int}
    (hmem : found ∈ table'.rows.map fun entry => column entry.2) :
    (found ∈ table.rows.map fun entry => column entry.2) ∨ found = time := by
  obtain ⟨⟨key, row⟩, hrow, rfl⟩ := List.mem_map.mp hmem
  rcases h key row ((Table.mem_rows_iff _ key row).mp hrow) with hbefore | htime
  · exact .inl (List.mem_map.mpr ⟨(key, row), (Table.mem_rows_iff _ key row).mpr hbefore, rfl⟩)
  · exact .inr htime

end Written

end Columns

section Attempts

variable {now : Time} {table table' table'' : Table (String × Int) AttemptRow}
  {row row' row'' : AttemptRow}

theorem Later.refl (now : Time) (row : AttemptRow) : Later now row row :=
  ⟨rfl, .inl rfl, .inl rfl, le_rfl⟩

theorem Later.trans (first : Later now row row') (second : Later now row' row'') :
    Later now row row'' where
  leasedAt := second.leasedAt.trans first.leasedAt
  heartbeatAt := by
    rcases second.heartbeatAt with hsame | hnow
    · rw [hsame]
      exact first.heartbeatAt
    · exact .inr hnow
  completedAt := by
    rcases second.completedAt with hsame | hnow
    · rw [hsame]
      exact first.completedAt
    · exact .inr hnow
  expiresAt := first.expiresAt.trans second.expiresAt

structure Opened (now : Time) (row : AttemptRow) : Prop where
  leasedAt : row.leasedAt = timeToDB now
  heartbeatAt : row.heartbeatAt = timeToDB now
  completedAt : row.completedAt = none ∨ row.completedAt = some (timeToDB now)

theorem Opened.later (opened : Opened now row) (later : Later now row row') : Opened now row' where
  leasedAt := later.leasedAt.trans opened.leasedAt
  heartbeatAt := by
    rcases later.heartbeatAt with hsame | hnow
    · exact hsame.trans opened.heartbeatAt
    · exact hnow
  completedAt := by
    rcases later.completedAt with hsame | hnow
    · rw [hsame]
      exact opened.completedAt
    · exact .inr hnow

structure AttemptsMove (now : Time) (table table' : Table (String × Int) AttemptRow) : Prop where
  kept : ∀ key row, table.get? key = some row →
    ∃ row', table'.get? key = some row' ∧ Later now row row'
  opened : ∀ key row, table.get? key = none → table'.get? key = some row → Opened now row

namespace AttemptsMove

theorem refl (now : Time) (table : Table (String × Int) AttemptRow) :
    AttemptsMove now table table where
  kept _ row hrow := ⟨row, hrow, .refl now row⟩
  opened _ _ habsent hrow := by
    rw [habsent] at hrow
    cases hrow

theorem trans (first : AttemptsMove now table table') (second : AttemptsMove now table' table'') :
    AttemptsMove now table table'' where
  kept key row hrow := by
    obtain ⟨row', hrow', hlater⟩ := first.kept key row hrow
    obtain ⟨row'', hrow'', hlater'⟩ := second.kept key row' hrow'
    exact ⟨row'', hrow'', hlater.trans hlater'⟩
  opened key row habsent hrow := by
    cases hmiddle : table'.get? key with
    | none => exact second.opened key row hmiddle hrow
    | some middle =>
      obtain ⟨row', hrow', hlater⟩ := second.kept key middle hmiddle
      rw [hrow] at hrow'
      cases hrow'
      exact (first.opened key middle habsent hmiddle).later hlater

theorem insert (habsent : table.get? key = none) (opened : Opened now row) :
    AttemptsMove now table (table.insert key row) where
  kept other found hfound := by
    refine ⟨found, ?_, .refl now found⟩
    exact Table.get?_insert_of_get? table key row hfound
  opened other found hother hfound := by
    rw [Table.get?_insert] at hfound
    grind

theorem modify (h : ∀ row, Later now row (change row)) :
    AttemptsMove now table (table.modify key change) where
  kept other found hfound := by
    by_cases hkey : other = key
    · subst hkey
      exact ⟨change found, by rw [Table.get?_modify_self, hfound]; rfl, h found⟩
    · exact ⟨found, by rw [Table.get?_modify_ne _ _ hkey, hfound], .refl now found⟩
  opened other found hother hfound := by
    rw [Table.get?_modify, hother] at hfound
    grind

theorem heartbeats (h : AttemptsMove now table table') {found : Int}
    (hmem : found ∈ table'.rows.map fun entry => entry.2.heartbeatAt) :
    (found ∈ table.rows.map fun entry => entry.2.heartbeatAt) ∨ found = timeToDB now := by
  obtain ⟨⟨key, row⟩, hrow, rfl⟩ := List.mem_map.mp hmem
  rw [Table.mem_rows_iff] at hrow
  cases hbefore : table.get? key with
  | none => exact .inr (h.opened key row hbefore hrow).heartbeatAt
  | some before =>
    obtain ⟨_, hafter, hlater⟩ := h.kept key before hbefore
    rw [hrow] at hafter
    cases hafter
    rcases hlater.heartbeatAt with hsame | hnow
    · refine .inl (List.mem_map.mpr ⟨(key, before), (Table.mem_rows_iff _ _ _).mpr hbefore, ?_⟩)
      exact hsame.symm
    · exact .inr hnow

theorem completions (h : AttemptsMove now table table') {found : Int}
    (hmem : found ∈ table'.rows.filterMap fun entry => entry.2.completedAt) :
    (found ∈ table.rows.filterMap fun entry => entry.2.completedAt) ∨ found = timeToDB now := by
  obtain ⟨⟨key, row⟩, hrow, hfound⟩ := List.mem_filterMap.mp hmem
  rw [Table.mem_rows_iff] at hrow
  dsimp only at hfound
  cases hbefore : table.get? key with
  | none =>
    rcases (h.opened key row hbefore hrow).completedAt with hnone | hnow
    · rw [hnone] at hfound
      cases hfound
    · rw [hnow] at hfound
      exact .inr (Option.some.inj hfound).symm
  | some before =>
    obtain ⟨_, hafter, hlater⟩ := h.kept key before hbefore
    rw [hrow] at hafter
    cases hafter
    rcases hlater.completedAt with hsame | hnow
    · refine .inl (List.mem_filterMap.mpr
        ⟨(key, before), (Table.mem_rows_iff _ _ _).mpr hbefore, ?_⟩)
      exact hsame.symm.trans hfound
    · rw [hnow] at hfound
      exact .inr (Option.some.inj hfound).symm

end AttemptsMove

end Attempts

structure Annals where
  jobs : Table String JobRow
  attempts : Table (String × Int) AttemptRow
  completions : Table String CompletionRow
  occurred : List Int
  operations : Table (String × String × String) OperationRow
  audits : Table String AuditRow
  dags : Table String DagRow

def annals (db : Database) : Annals where
  jobs := db.jobs
  attempts := db.attempts
  completions := db.jobCompletions
  occurred := db.events.map EventRow.occurredAt
  operations := db.operationRequests
  audits := db.auditEvents
  dags := db.dagRuns

structure Stamped (now : Time) (before after : Annals) : Prop where
  jobs : Written JobRow.updatedAt (timeToDB now) before.jobs after.jobs
  attempts : AttemptsMove now before.attempts after.attempts
  completions : Written CompletionRow.committedAt (timeToDB now) before.completions
    after.completions
  occurred : ∃ count, after.occurred = before.occurred ++ List.replicate count (timeToDB now)
  operations : Written OperationRow.committedAt (timeToDB now) before.operations after.operations
  audits : Written AuditRow.occurredAt (timeToDB now) before.audits after.audits
  dags : Written DagRow.updatedAt (timeToDB now) before.dags after.dags

theorem Stamped.refl (now : Time) (state : Annals) : Stamped now state state where
  jobs := .refl _ _ _
  attempts := .refl _ _
  completions := .refl _ _ _
  occurred := ⟨0, (List.append_nil _).symm⟩
  operations := .refl _ _ _
  audits := .refl _ _ _
  dags := .refl _ _ _

theorem Stamped.trans (h : Stamped now first middle) (h' : Stamped now middle last) :
    Stamped now first last where
  jobs := h.jobs.trans h'.jobs
  attempts := h.attempts.trans h'.attempts
  completions := h.completions.trans h'.completions
  occurred := by
    obtain ⟨count, heq⟩ := h.occurred
    obtain ⟨count', heq'⟩ := h'.occurred
    exact ⟨count + count', by rw [heq', heq, List.append_assoc, List.replicate_append_replicate]⟩
  operations := h.operations.trans h'.operations
  audits := h.audits.trans h'.audits
  dags := h.dags.trans h'.dags

def Stamps (now : Time) (db db' : Database) : Prop := Stamped now (annals db) (annals db')

instance (now : Time) : IsPreorder Database (Stamps now) where
  refl db := .refl now (annals db)
  trans _ _ _ first second := Stamped.trans first second

variable {now : Time} {env : Env}

theorem stamps_event (db : Database) (h : event.occurredAt = timeToDB now) :
    Stamps now db { db with events := db.events ++ [event] } :=
  { Stamped.refl now (annals db) with
    occurred := ⟨1, by
      unfold annals
      rw [List.map_append, List.map_singleton, h]
      rfl⟩ }

theorem stamps_lives (now : Time) : Lives now admission (Stamps now) where
  newJob db _ _ habsent htime :=
    { Stamped.refl now (annals db) with jobs := .insert habsent htime }
  job db _ _ htime := { Stamped.refl now (annals db) with jobs := .modify htime }
  jobDependencies db _ := .refl now (annals db)
  completion db _ _ habsent htime :=
    { Stamped.refl now (annals db) with completions := .insert habsent htime }
  deadLetter db _ _ _ _ := .refl now (annals db)
  tenantLimits db _ := .refl now (annals db)
  dagRun db _ _ habsent htime :=
    { Stamped.refl now (annals db) with dags := .insert habsent htime }
  dagJob db _ _ _ := .refl now (annals db)
  readySeq db _ := .refl now (annals db)
  newQueue db _ _ _ _ := .refl now (annals db)
  queueSlots db _ _ _ := .refl now (annals db)
  event db _ _ htime := stamps_event db htime
  newAttempt db _ _ habsent hleased hheartbeat hcompleted :=
    { Stamped.refl now (annals db) with
      attempts := .insert habsent ⟨hleased, hheartbeat, .inl hcompleted⟩ }
  attempt db _ _ hlater := { Stamped.refl now (annals db) with attempts := .modify hlater }

theorem stamps_audited (now : Time) : Audited now note (Stamps now) where
  events := {
    add := fun db _ hnoted => stamps_event db hnoted.1
    reword := fun db change hsame =>
      { Stamped.refl now (annals db) with
        occurred := ⟨0, by
          unfold annals
          rw [List.map_map, List.replicate_zero, List.append_nil]
          exact List.map_congr_left fun event _ => (hsame.2 event).occurredAt⟩ } }
  operation db _ _ habsent htime :=
    { Stamped.refl now (annals db) with operations := .insert habsent htime }
  audit db _ _ habsent htime :=
    { Stamped.refl now (annals db) with audits := .insert habsent htime }

theorem stamps_writes (now : Time) (area : Area) : Writes now note (Stamps now) area := by
  cases area
  case controls => exact stamps_audited now
  all_goals dsimp only [Writes]; repeat' constructor
  all_goals intros; exact refl_of (Stamps now) _

theorem mem_append_or {before after : List Int} {fresh : Prop}
    (first : time ∈ after → time ∈ before ∨ fresh) (second : time ∈ after' → time ∈ before' ∨ fresh)
    (h : time ∈ after ++ after') :
    time ∈ before ++ before' ∨ fresh := by
  rcases List.mem_append.mp h with hmem | hmem
  · exact (first hmem).imp_left (List.mem_append_left _)
  · exact (second hmem).imp_left (List.mem_append_right _)

theorem Stamped.events {before after : Annals} (h : Stamped now before after)
    (hmem : time ∈ after.occurred) : time ∈ before.occurred ∨ time = timeToDB now := by
  obtain ⟨count, heq⟩ := h.occurred
  rw [heq] at hmem
  rcases List.mem_append.mp hmem with hold | hnew
  · exact .inl hold
  · exact .inr (List.eq_of_mem_replicate hnew)

theorem Stamps.persisted (h : Stamps now db db') (hmem : time ∈ persistedTimes db') :
    time ∈ persistedTimes db ∨ time = timeToDB now :=
  mem_append_or (mem_append_or (mem_append_or (mem_append_or (mem_append_or (mem_append_or
    (mem_append_or h.jobs.mem h.attempts.heartbeats) h.attempts.completions) h.completions.mem)
    h.events) h.operations.mem) h.audits.mem) h.dags.mem hmem

theorem ungated_stamps {op : Op} (h : op.gated = false) (options : Options) (now time : Time) :
    Relates (Stamps time) (op.program env options now) := by
  cases op with
  | recordOccurrence =>
    exact .bind (relates_recordOccurrence (stamps_writes time _) _ _ _ _ _) fun _ => .pure _
  | recordDelivery =>
    exact .bind (relates_recordDelivery (stamps_writes time _) _ _ _ _ _) fun _ => .pure _
  | _ => cases h

theorem step_stamps (env : Env) (store : StoreState) (call : Call) :
    ∃ now, store.clock.lastTime ≤ now ∧ int64 now = now ∧
      Stamps now store.db (step env store call).2.db ∧
      ((step env store call).2.clock.lastTime = now ∨
        ∃ options, call.op = .reopen options ∧
          (step env store call).2 = openStore options store.db) := by
  have hstill : store.clock.lastTime ≤ store.clock.lastTime ∧
      int64 store.clock.lastTime = store.clock.lastTime := ⟨le_rfl, store.clock.lastTimeFits⟩
  rcases step_eq env store call with ⟨options, hop, hstep⟩ | hstep
  · rw [hstep]
    exact ⟨_, hstill.1, hstill.2, refl_of (Stamps _) _, .inr ⟨options, hop, rfl⟩⟩
  · rw [hstep]
    unfold execute
    cases call.op.early with
    | some reply => exact ⟨_, hstill.1, hstill.2, refl_of (Stamps _) _, .inl rfl⟩
    | none =>
      dsimp only
      cases hgated : call.op.gated with
      | true =>
        rw [if_pos rfl]
        refine ⟨store.clock.writeTime call.reading, le_max_right _ _,
          store.clock.writeTime_fits call.reading, ?_, .inl rfl⟩
        exact (program_relates (stamps_lives _) (stamps_writes _ _)
          fun _ db _ _ => .refl _ (annals db)).commit store.db
      | false =>
        rw [if_neg Bool.false_ne_true]
        refine ⟨store.clock.lastTime, hstill.1, hstill.2, ?_, .inl rfl⟩
        exact (ungated_stamps hgated store.options 0 store.clock.lastTime).commit store.db

/-- The clock is behind no time in the tables, and the events are in the order of
their times. -/
structure Timely (store : StoreState) : Prop where
  persisted : ∀ time ∈ persistedTimes store.db,
    time ≤ store.clock.lastTime ∧ int64 time = time
  ordered : (store.db.events.map EventRow.occurredAt).Pairwise (· ≤ ·)

theorem occurred_persisted (h : time ∈ db.events.map EventRow.occurredAt) :
    time ∈ persistedTimes db := by
  unfold persistedTimes
  simp only [List.mem_append, h, true_or, or_true]

theorem initializeLogicalClock_latest
    (h : ∀ time ∈ persistedTimes db, time ≤ bound ∧ int64 time = time) :
    ∀ time ∈ persistedTimes db, time ≤ (initializeLogicalClock db).lastTime := by
  intro time hmem
  unfold initializeLogicalClock
  dsimp only
  cases hmax : (persistedTimes db).max? with
  | none =>
    rw [List.max?_eq_none_iff] at hmax
    rw [hmax] at hmem
    cases hmem
  | some latest =>
    obtain ⟨hlatest, hbelow⟩ := List.max?_eq_some_iff.mp hmax
    rw [Option.getD_some, (h latest hlatest).2]
    exact hbelow time hmem

theorem Timely.step (h : Timely store) (env : Env) (call : Call) :
    Timely (step env store call).2 := by
  obtain ⟨now, hlast, hfits, hstamps, hclock⟩ := step_stamps env store call
  have hwritten : ∀ time ∈ persistedTimes (Store.step env store call).2.db,
      time ≤ now ∧ int64 time = time := by
    intro time hmem
    rcases hstamps.persisted hmem with hold | rfl
    · exact ⟨(h.persisted time hold).1.trans hlast, (h.persisted time hold).2⟩
    · exact ⟨hfits.le, int64_int64 now⟩
  refine ⟨fun time hmem => ⟨?_, (hwritten time hmem).2⟩, ?_⟩
  · rcases hclock with hclock | ⟨options, _, hopen⟩
    · rw [hclock]
      exact (hwritten time hmem).1
    · rw [hopen] at hmem hwritten ⊢
      exact initializeLogicalClock_latest hwritten time hmem
  · obtain ⟨count, heq⟩ := hstamps.occurred
    change List.map EventRow.occurredAt _ = List.map EventRow.occurredAt _ ++ _ at heq
    rw [heq, List.pairwise_append]
    refine ⟨h.ordered, List.pairwise_replicate.mpr (.inr le_rfl), ?_⟩
    intro earlier hearlier later hlater
    rw [List.eq_of_mem_replicate hlater, show timeToDB now = now from hfits]
    exact (h.persisted earlier (occurred_persisted hearlier)).1.trans hlast

theorem timely_fresh (options : Options) : Timely (freshStore options) := by
  refine ⟨fun time hmem => ?_, List.Pairwise.nil⟩
  cases hmem

theorem timely_calls (env : Env) (h : Timely store) (calls : List Call) :
    Timely (runCalls env store calls) := by
  induction calls generalizing store with
  | nil => exact h
  | cons call rest ih => exact ih (h.step env call)

end RailYard.Refinement
