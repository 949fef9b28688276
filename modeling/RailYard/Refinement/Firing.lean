import RailYard.Refinement.Cron

/-! The times of the triggers while calls of `FireDueCron` go on: what an event does
to them, and what a call reaches that overlaps no other. -/
namespace RailYard.Refinement
open Library Domain Store Server
open Lifecycle

variable {env : Env} {state : CronState}

section Times

theorem submitJob_cron (env : Env) {store store' : StoreState}
    (h : store.perform reading (submitJob store.options submission entropy) = (result, store')) :
    store'.db.cronTriggers = store.db.cronTriggers ∧
      store'.db.cronOccurrences = store.db.cronOccurrences := by
  rw [perform_submitJob env h]
  constructor
  · exact step_preserves aloof_cronTriggers
      (outside_cronTriggers (fun harea => nomatch harea) (fun harea => nomatch harea))
  · exact step_preserves aloof_cronOccurrences (fun _ _ => rfl)

theorem advance_triggers (env : Env) (state : CronState) (event : CronEvent) :
    (state.advance env event).store.db.cronTriggers = state.store.db.cronTriggers ∨
    (∃ call submission entropy id row, event = .call call ∧
      call.op = .createCronTrigger submission entropy ∧
      state.store.db.cronTriggers.get? id = none ∧
      NewTrigger env (callTime state.store call) row ∧ row.expression = submission.expression ∧
      (state.advance env event).store.db.cronTriggers =
        state.store.db.cronTriggers.insert id row) ∨
    ∃ index now entry rest jobID next, event = .record index ∧
      state.firings[index]? = some ⟨now, entry :: rest, some (jobID, next)⟩ ∧
      (state.advance env event).store.db.cronTriggers =
        state.store.db.cronTriggers.modify entry.1
          (postponed (timeFromDB entry.2.nextFireAt) next now) := by
  have hstep := cronStep env state event
  generalize state.advance env event = state' at hstep ⊢
  cases hstep with
  | call call hcall =>
    rcases @triggers_step env state.store call hcall with
      hsame | ⟨submission, entropy, id, row, hop, habsent, hnew, hexpression, hinsert⟩
    · exact .inl hsame
    · exact .inr (.inl ⟨call, submission, entropy, id, row, rfl, hop, habsent, hnew,
        hexpression, hinsert⟩)
  | refused _ hperform => exact .inl (submitJob_cron env hperform).1
  | submitted _ hperform => exact .inl (submitJob_cron env hperform).1
  | recorded hfiring hrun =>
    obtain ⟨_, _, _, hdb⟩ := recordOccurrence_ok hrun
    exact .inr (.inr ⟨_, _, _, _, _, _, rfl, hfiring, congrArg Database.cronTriggers hdb⟩)
  | _ => exact .inl rfl

theorem put_firings {index : Nat} {submitted : Option (String × Time)}
    (hfiring : state.firings[index]? = some firing) (hdue : due ⊆ firing.due)
    (hother : other ∈ state.firings.set index ⟨firing.now, due, submitted⟩) :
    ∃ old ∈ state.firings, other.now = old.now ∧ other.due ⊆ old.due := by
  rcases List.mem_or_eq_of_mem_set hother with hold | rfl
  · exact ⟨other, hold, rfl, List.Subset.refl _⟩
  · exact ⟨firing, List.mem_of_getElem? hfiring, rfl, hdue⟩

/-- The calls on their way after an event are those before it, with fewer triggers
before them perhaps, and one that begins. -/
theorem advance_firings (env : Env) (state : CronState) (event : CronEvent)
    (h : firing ∈ (state.advance env event).firings) :
    (∃ old ∈ state.firings, firing.now = old.now ∧ firing.due ⊆ old.due) ∨
      ∃ now limit, event = .fire now limit ∧
        firing = ⟨now, dueTriggers state.store.db now limit, none⟩ := by
  have hstep := cronStep env state event
  generalize state.advance env event = state' at hstep h
  cases hstep with
  | idle => exact .inl ⟨firing, h, rfl, List.Subset.refl _⟩
  | call => exact .inl ⟨firing, h, rfl, List.Subset.refl _⟩
  | fire now limit =>
    rcases List.mem_append.mp h with hold | hnew
    · exact .inl ⟨firing, hold, rfl, List.Subset.refl _⟩
    · exact .inr ⟨now, limit, rfl, List.mem_singleton.mp hnew⟩
  | refused hfiring => exact .inl (put_firings hfiring (List.nil_subset _) h)
  | submitted hfiring _ hnext =>
    rcases hnext with ⟨_, rfl⟩ | ⟨next, _, rfl⟩
    · exact .inl (put_firings hfiring (List.nil_subset _) h)
    · exact .inl (put_firings hfiring (List.Subset.refl _) h)
  | failed hfiring => exact .inl (put_firings hfiring (List.nil_subset _) h)
  | recorded hfiring => exact .inl (put_firings hfiring (List.subset_cons_self _ _) h)
  | crash index =>
    obtain ⟨position, hposition⟩ := List.mem_iff_getElem?.mp h
    rw [List.getElem?_modify] at hposition
    obtain ⟨old, hold, rfl⟩ := Option.map_eq_some_iff.mp hposition
    refine .inl ⟨old, List.mem_of_getElem? hold, ?_⟩
    split
    · exact ⟨rfl, List.nil_subset _⟩
    · exact ⟨rfl, List.Subset.refl _⟩

theorem advance_yields (env : Env) (state : CronState) (event : CronEvent) :
    (state.advance env event).yields = state.yields ∨
      ∃ (index : Nat) (now : Time) (entry : String × CronRow) (rest : List (String × CronRow))
          (jobID : String) (duplicate : Bool),
        state.firings[index]? = some ⟨now, entry :: rest, none⟩ ∧
        (state.advance env event).yields = state.yields ++
          [⟨entry.1, timeFromDB entry.2.nextFireAt, now, jobID, duplicate⟩] := by
  have hstep := cronStep env state event
  generalize state.advance env event = state' at hstep ⊢
  cases hstep with
  | submitted hfiring => exact .inr ⟨_, _, _, _, _, _, hfiring, rfl⟩
  | _ => exact .inl rfl

theorem advance_kept (env : Env) (state : CronState) (event : CronEvent) :
    TriggersKept state.store.db (state.advance env event).store.db := by
  rcases advance_triggers env state event with
    hsame | ⟨_, _, _, _, _, _, _, _, _, _, hinsert⟩ | ⟨_, _, _, _, _, _, _, _, hmodify⟩
  · exact triggersKept_same hsame
  · exact triggersKept_insert hinsert
  · exact triggersKept_modify (postponed_kept _ _ _) hmodify

def Increasing (db db' : Database) : Prop :=
  ∀ id row row', db.cronTriggers.get? id = some row → db'.cronTriggers.get? id = some row' →
    row'.nextFireAt ≠ row.nextFireAt → row.nextFireAt < row'.nextFireAt

def Storable (env : Env) (now : Time) (due : List (String × CronRow)) : Prop :=
  int64 now = now ∧ ∀ entry ∈ due, ∀ next, env.parseCron entry.2.expression = some next →
    int64 (next now) = next now

theorem Storable.subset (h : Storable env now due) (hsubset : due' ⊆ due) : Storable env now due' :=
  ⟨h.1, fun entry hentry => h.2 entry (hsubset hentry)⟩

/-- A call begins at a time that can be stored, with due triggers whose next times
can be. -/
def FiresInRange (env : Env) (state : CronState) : CronEvent → Prop
  | .fire now limit => Storable env now (dueTriggers state.store.db now limit)
  | _ => True

def InRange (env : Env) (state : CronState) : Prop :=
  ∀ firing ∈ state.firings, Storable env firing.now firing.due

theorem InRange.advance (h : InRange env state) (hevent : FiresInRange env state event) :
    InRange env (state.advance env event) := by
  intro firing hfiring
  rcases advance_firings env state event hfiring with
    ⟨old, hold, hnow, hdue⟩ | ⟨now, limit, rfl, rfl⟩
  · rw [hnow]
    exact (h old hold).subset hdue
  · exact hevent

theorem advance_increasing (hnext : ∀ expression next, env.parseCron expression = some next →
      ∀ time, time < next time)
    (sound : CronSound env state) (range : InRange env state) (event : CronEvent) :
    Increasing state.store.db (state.advance env event).store.db := by
  intro id row row' hrow hrow' hchange
  rcases advance_triggers env state event with
    hsame | ⟨_, _, _, _, _, _, _, _, _, _, hinsert⟩ |
      ⟨index, now, entry, rest, jobID, next, _, hfiring, hmodify⟩
  · rw [hsame, hrow] at hrow'
    cases hrow'
    exact (hchange rfl).elim
  · rw [hinsert, Table.get?_insert_of_get? _ _ _ hrow] at hrow'
    cases hrow'
    exact (hchange rfl).elim
  · rw [hmodify, Table.get?_modify] at hrow'
    split at hrow'
    · rename_i hid
      rw [← hid, hrow] at hrow'
      cases hrow'
      have hmem := List.mem_of_getElem? hfiring
      obtain ⟨hdue, hfits⟩ := (sound.firings _ hmem).due entry (List.mem_cons_self ..)
      obtain ⟨⟨schedule, hschedule, rfl⟩, _⟩ := (sound.firings _ hmem).head
      obtain ⟨hnow, hnexts⟩ := range _ hmem
      have hstored := hnexts entry (List.mem_cons_self ..) schedule hschedule
      unfold postponed at hchange ⊢
      split at hchange
      · rename_i hguard
        rw [if_pos hguard]
        calc row.nextFireAt = entry.2.nextFireAt := hguard.trans hfits
          _ ≤ int64 now := hdue
          _ = now := hnow
          _ < schedule now := hnext _ schedule hschedule now
          _ = int64 (schedule now) := hstored.symm
      · exact (hchange rfl).elim
    · rw [hrow] at hrow'
      cases hrow'
      exact (hchange rfl).elim

end Times

section Alone

/-- A trigger that the call has advanced to the first occurrence after its time. -/
def Advanced (env : Env) (selected : List (String × CronRow)) (now : Time) (db : Database)
    (yield : Yield) : Prop :=
  ∃ entry ∈ selected, entry.1 = yield.triggerID ∧ ∃ row next,
    db.cronTriggers.get? entry.1 = some row ∧ Postponed entry.2 row ∧
    env.parseCron entry.2.expression = some next ∧ row.nextFireAt = timeToDB (next now)

/-- A call on its way that overlaps no other: `fired` are its submissions so far, the
trigger of the last of them is `pending` until its occurrence is recorded, and
the triggers in `rest` have still the times that the call has read. -/
structure Lone (env : Env) (begun : CronState) (selected : List (String × CronRow)) (now : Time)
    (state : CronState) (fired : List Yield)
    (pending : Option ((String × CronRow) × (String × Time))) (rest : List (String × CronRow)) :
    Prop where
  firing : state.firings[begun.firings.length]? =
    some ⟨now, (pending.map Prod.fst).toList ++ rest, pending.map Prod.snd⟩
  yields : state.yields = begun.yields ++ fired
  among : (pending.map Prod.fst).toList ++ rest ⊆ selected
  distinct : (fired.map Yield.triggerID ++ rest.map Prod.fst).Nodup
  counted : ∀ entry ∈ pending.map Prod.fst, entry.1 ∈ fired.map Yield.triggerID
  unmoved : ∀ entry ∈ (pending.map Prod.fst).toList ++ rest, ∃ row,
    state.store.db.cronTriggers.get? entry.1 = some row ∧ row.nextFireAt = entry.2.nextFireAt
  advanced : ∀ yield ∈ fired, Advanced env selected now state.store.db yield ∨
    ∃ entry ∈ pending.map Prod.fst, entry.1 = yield.triggerID

variable {begun : CronState} {selected : List (String × CronRow)} {now : Time}
  {fired : List Yield} {pending : Option ((String × CronRow) × (String × Time))}
  {rest : List (String × CronRow)}

theorem nodup_dueTriggers (db : Database) (now : Time) (limit : Int) :
    ((dueTriggers db now limit).map Prod.fst).Nodup := by
  unfold dueTriggers
  rw [List.map_take]
  refine List.Nodup.sublist (List.take_sublist _ _) ?_
  refine ((List.perm_insertionSort _ _).map Prod.fst).nodup_iff.mpr ?_
  exact Table.nodupKeys_filter _ _

theorem Lone.begin (env : Env) (state : CronState) (now : Time) (limit : Int) :
    Lone env state (dueTriggers state.store.db now limit) now
      (state.advance env (.fire now limit)) [] none (dueTriggers state.store.db now limit) where
  firing := by
    change (state.firings ++ [_])[state.firings.length]? = _
    rw [List.getElem?_concat_length]
    rfl
  yields := (List.append_nil _).symm
  among := List.Subset.refl _
  distinct := nodup_dueTriggers _ _ _
  counted _ hentry := nomatch hentry
  unmoved entry hentry := ⟨entry.2, (mem_dueTriggers hentry).1, rfl⟩
  advanced _ hyield := nomatch hyield

theorem Advanced.kept (h : Advanced env selected now db yield)
    (hrows : ∀ id row, db.cronTriggers.get? id = some row → db'.cronTriggers.get? id = some row) :
    Advanced env selected now db' yield := by
  obtain ⟨entry, hentry, htrigger, row, next, hrow, hnext⟩ := h
  exact ⟨entry, hentry, htrigger, row, next, hrows entry.1 row hrow, hnext⟩

theorem Lone.call (h : Lone env begun selected now state fired pending rest) (call : Call) :
    Lone env begun selected now (state.advance env (.call call)) fired pending rest := by
  have hrows : ∀ id row, state.store.db.cronTriggers.get? id = some row →
      (state.advance env (.call call)).store.db.cronTriggers.get? id = some row := by
    intro id row hrow
    rcases advance_triggers env state (.call call) with
      hsame | ⟨_, _, _, _, _, _, _, _, _, _, hinsert⟩ | ⟨_, _, _, _, _, _, hevent, _⟩
    · rw [hsame, hrow]
    · rw [hinsert]
      exact Table.get?_insert_of_get? _ _ _ hrow
    · cases hevent
  refine { h with firing := ?_, yields := ?_, unmoved := ?_, advanced := ?_ }
  · rw [← h.firing, CronState.advance]
    split <;> rfl
  · rw [← h.yields, CronState.advance]
    split <;> rfl
  · intro entry hentry
    obtain ⟨row, hrow, htime⟩ := h.unmoved entry hentry
    exact ⟨row, hrows entry.1 row hrow, htime⟩
  · intro yield hyield
    exact (h.advanced yield hyield).imp_left (Advanced.kept · hrows)

theorem getElem?_put {index : Nat} (h : state.firings[index]? = some firing) (store : StoreState)
    (firing' : Firing) :
    (state.put store index firing').firings[index]? = some firing' := by
  have hlt := (List.getElem?_eq_some_iff.mp h).1
  change (state.firings.set index firing')[index]? = _
  rw [List.getElem?_set_self hlt]

theorem Lone.atSubmit (h : Lone env begun selected now state fired pending rest)
    {entry : String × CronRow}
    (hfiring : state.firings[begun.firings.length]? = some ⟨now', entry :: rest', none⟩) :
    now' = now ∧ pending = none ∧ rest = entry :: rest' := by
  rw [h.firing] at hfiring
  cases pending with
  | some submitted => cases hfiring
  | none =>
    cases hfiring
    exact ⟨rfl, rfl, rfl⟩

theorem Lone.refused (h : Lone env begun selected now state fired none rest)
    (hrows : store'.db.cronTriggers = state.store.db.cronTriggers) :
    Lone env begun selected now (state.put store' begun.firings.length ⟨now, [], none⟩) fired none
      [] where
  firing := getElem?_put h.firing store' _
  yields := h.yields
  among := List.nil_subset _
  distinct := by
    have hdistinct := (List.nodup_append.mp h.distinct).1
    rwa [List.map_nil, List.append_nil]
  counted := fun _ hentry => nomatch hentry
  unmoved := fun _ hentry => nomatch hentry
  advanced := fun yield hyield => .inl (by
    rcases h.advanced yield hyield with hdone | ⟨_, hpending, _⟩
    · exact hdone.kept fun id row hrow => hrows ▸ hrow
    · cases hpending)

theorem Lone.submitted {entry : String × CronRow}
    (h : Lone env begun selected now state fired none (entry :: rest)) {store' : StoreState}
    {jobID : String} {next : Time} {duplicate : Bool}
    (hrows : store'.db.cronTriggers = state.store.db.cronTriggers) :
    Lone env begun selected now
      { state.put store' begun.firings.length ⟨now, entry :: rest, some (jobID, next)⟩ with
        yields := state.yields ++
          [⟨entry.1, timeFromDB entry.2.nextFireAt, now, jobID, duplicate⟩] }
      (fired ++ [⟨entry.1, timeFromDB entry.2.nextFireAt, now, jobID, duplicate⟩])
      (some (entry, jobID, next)) rest where
  firing := getElem?_put h.firing store' _
  yields := by rw [← List.append_assoc, ← h.yields]
  among := h.among
  distinct := by
    rw [List.map_append, List.append_assoc]
    exact h.distinct
  counted := by
    rintro _ ⟨⟩
    rw [List.map_append]
    exact List.mem_append_right _ (List.mem_singleton_self _)
  unmoved := by
    intro other hother
    obtain ⟨row, hrow, htime⟩ := h.unmoved other hother
    exact ⟨row, hrows ▸ hrow, htime⟩
  advanced := by
    intro yield hyield
    rcases List.mem_append.mp hyield with hold | hnew
    · rcases h.advanced yield hold with hdone | ⟨_, hpending, _⟩
      · exact .inl (hdone.kept fun id row hrow => hrows ▸ hrow)
      · cases hpending
    · rw [List.mem_singleton] at hnew
      subst hnew
      exact .inr ⟨entry, rfl, rfl⟩

theorem Lone.recorded (sound : CronSound env state) {entry : String × CronRow}
    (h : Lone env begun selected now state fired (some (entry, jobID, next)) rest)
    {recorded : StoreState} (hrun : recordOccurrence entry.1 (timeFromDB entry.2.nextFireAt) jobID
      next now state.store.db = .ok () recorded.db) :
    Lone env begun selected now (state.put recorded begun.firings.length ⟨now, rest, none⟩) fired
      none rest := by
  have hfiring := sound.firings _ (List.mem_of_getElem? h.firing)
  obtain ⟨row, hrow, htime⟩ := h.unmoved entry (List.mem_cons_self ..)
  obtain ⟨⟨schedule, hschedule, rfl⟩, hjob⟩ := hfiring.head
  obtain ⟨_, _, _, hdb⟩ := recordOccurrence_ok hrun
  have hself : ∃ row', recorded.db.cronTriggers.get? entry.1 = some row' ∧
      Postponed entry.2 row' ∧ row'.nextFireAt = timeToDB (schedule now) := by
    refine ⟨postponed (timeFromDB entry.2.nextFireAt) (schedule now) now row, ?_, ?_, ?_⟩
    · rw [hdb, Table.get?_modify_self, hrow]
      rfl
    · obtain ⟨found, hfound, hread⟩ := hfiring.read entry (List.mem_cons_self ..)
      rw [hrow] at hfound
      cases hfound
      exact hread.trans (postponed_kept _ _ _ row)
    · have hguard : row.nextFireAt = timeToDB (timeFromDB entry.2.nextFireAt) :=
        htime.trans (hfiring.due entry (List.mem_cons_self ..)).2.symm
      unfold postponed
      rw [if_pos hguard]
      rfl
  have hothers : ∀ id, id ≠ entry.1 →
      recorded.db.cronTriggers.get? id = state.store.db.cronTriggers.get? id := by
    intro id hne
    rw [hdb]
    exact Table.get?_modify_ne _ _ hne
  refine {
    firing := getElem?_put h.firing recorded _
    yields := h.yields
    among := fun other hother => h.among (List.mem_cons_of_mem _ hother)
    distinct := h.distinct
    counted := fun _ hentry => nomatch hentry
    unmoved := ?_
    advanced := ?_ }
  · intro other hother
    have hne : other.1 ≠ entry.1 := by
      intro heq
      have hmem := h.counted entry rfl
      rw [← heq] at hmem
      exact (List.nodup_append.mp h.distinct).2.2 _ hmem _ (List.mem_map_of_mem hother) rfl
    obtain ⟨found, hfound, hsame⟩ := h.unmoved other (List.mem_cons_of_mem _ hother)
    exact ⟨found, (hothers other.1 hne).trans hfound, hsame⟩
  · intro yield hyield
    by_cases htrigger : entry.1 = yield.triggerID
    · obtain ⟨row', hrow', hread, htime'⟩ := hself
      exact .inl ⟨entry, h.among (List.mem_cons_self ..), htrigger, row', schedule, hrow',
        hread, hschedule, htime'⟩
    · rcases h.advanced yield hyield with
        ⟨other, hother, hsame, found, time, hfound, hparsed⟩ | ⟨_, ⟨⟩, hsame⟩
      · refine .inl ⟨other, hother, hsame, found, time, ?_, hparsed⟩
        rw [← hfound]
        exact hothers other.1 fun heq => htrigger (heq.symm.trans hsame)
      · exact (htrigger hsame).elim

theorem Lone.atRecord (h : Lone env begun selected now state fired pending rest)
    {entry : String × CronRow} (hfiring : state.firings[begun.firings.length]? =
      some ⟨now', entry :: rest', some (jobID, next)⟩) :
    now' = now ∧ pending = some (entry, jobID, next) ∧ rest = rest' := by
  rw [h.firing] at hfiring
  cases pending with
  | none => cases hfiring
  | some submitted =>
    obtain ⟨_, _, _⟩ := submitted
    cases hfiring
    exact ⟨rfl, rfl, rfl⟩

theorem Lone.advance (sound : CronSound env state)
    (h : Lone env begun selected now state fired pending rest) {event : CronEvent}
    (hevent : event.alone begun.firings.length = true) :
    ∃ fired' pending' rest', Lone env begun selected now (state.advance env event) fired' pending'
      rest' := by
  cases event with
  | call call => exact ⟨fired, pending, rest, h.call call⟩
  | fire => cases hevent
  | crash => cases hevent
  | submit index elapsed entropy =>
    obtain rfl := of_decide_eq_true hevent
    have hstep := cronStep env state (.submit begun.firings.length elapsed entropy)
    generalize state.advance env _ = state' at hstep ⊢
    cases hstep with
    | idle => exact ⟨fired, pending, rest, h⟩
    | refused hfiring hperform =>
      obtain ⟨rfl, rfl, rfl⟩ := h.atSubmit hfiring
      exact ⟨_, _, _, h.refused (submitJob_cron env hperform).1⟩
    | submitted hfiring hperform hnext =>
      obtain ⟨rfl, rfl, rfl⟩ := h.atSubmit hfiring
      obtain ⟨row, hrow, hread⟩ :=
        (sound.firings _ (List.mem_of_getElem? hfiring)).read _ (List.mem_cons_self ..)
      rcases hnext with ⟨hnone, _⟩ | ⟨next, _, rfl⟩
      · have hparses := (sound.triggers _ row hrow).1
        rw [hread.expression, hnone] at hparses
        cases hparses
      · exact ⟨_, _, _, h.submitted (submitJob_cron env hperform).1⟩
  | record index =>
    obtain rfl := of_decide_eq_true hevent
    have hstep := cronStep env state (.record begun.firings.length)
    generalize state.advance env _ = state' at hstep ⊢
    cases hstep with
    | idle => exact ⟨fired, pending, rest, h⟩
    | failed hfiring hfails =>
      obtain ⟨rfl, rfl, rfl⟩ := h.atRecord hfiring
      have hsound := sound.firings _ (List.mem_of_getElem? hfiring)
      obtain ⟨row, hrow, _⟩ := h.unmoved _ (List.mem_cons_self ..)
      obtain ⟨_, db, hrun⟩ := recordOccurrence_succeeds _ _ _ hrow
        (sound.registry.exists_job _ _ hsound.head.2)
      exact (hfails db hrun).elim
    | recorded hfiring hrun =>
      obtain ⟨rfl, rfl, rfl⟩ := h.atRecord hfiring
      exact ⟨_, _, _, h.recorded sound hrun⟩

def OnItsWay (env : Env) (begun : CronState) (now : Time) (limit : Int) (state : CronState) :
    Prop :=
  CronSound env state ∧ ∃ fired pending rest,
    Lone env begun (dueTriggers begun.store.db now limit) now state fired pending rest

theorem onItsWay_run (sound : CronSound env state) (now : Time) (limit : Int)
    (hevents : ∀ event ∈ events, event.alone state.firings.length = true) :
    OnItsWay env state now limit ((state.advance env (.fire now limit)).run env events) := by
  have hbegin : OnItsWay env state now limit (state.advance env (.fire now limit)) :=
    ⟨sound.advance _, _, _, _, .begin env state now limit⟩
  refine Throughout.keeps ?_ hbegin (.of_forall_mem hevents)
  rintro between event ⟨hsound, fired, pending, rest, halone⟩ hevent
  exact ⟨hsound.advance event, halone.advance hsound hevent⟩

end Alone

section Turns

variable {now : Time} {store store' : StoreState} {entry : String × CronRow}

section Calls

variable {elapsed : Nat → Int} {entropy : Nat → Entropy} {turn : Nat}

theorem fireTriggers_failed
    (h : fireTrigger env now (elapsed turn) (entropy turn) store entry = (.error error, store'))
    (rest : List (String × CronRow)) :
    fireTriggers env now elapsed entropy turn store (entry :: rest) = (.error error, store') := by
  rw [fireTriggers, h]

theorem fireTriggers_fired
    (h : fireTrigger env now (elapsed turn) (entropy turn) store entry = (.ok jobID, store'))
    (rest : List (String × CronRow)) :
    fireTriggers env now elapsed entropy turn store (entry :: rest) =
      ((fireTriggers env now elapsed entropy (turn + 1) store' rest).1.map (jobID :: ·),
        (fireTriggers env now elapsed entropy (turn + 1) store' rest).2) := by
  rw [fireTriggers, h]
  dsimp only
  split <;> rename_i hrest <;> rw [hrest] <;> rfl

end Calls

def Reaches (state : CronState) (index : Nat) (now : Time) (store : StoreState)
    (due : List (String × CronRow)) : Prop :=
  state.store = store ∧ state.firings[index]? = some ⟨now, due, none⟩

def remaining {α : Type} (rest : List (String × CronRow)) : Except Error α → List (String × CronRow)
  | .ok _ => rest
  | .error _ => []

section Reached

variable {index : Nat} {rest : List (String × CronRow)} {elapsed : Int} {entropy : Entropy}

theorem submitDue_ended (h : Reaches state index now store []) :
    submitDue env state index elapsed entropy = state := by
  unfold submitDue
  rw [h.2]

theorem recordDue_ended (h : Reaches state index now store []) :
    Reaches (recordDue state index) index now store [] := by
  unfold recordDue
  rw [h.2]
  exact h

theorem turn_reaches (h : Reaches state index now store (entry :: rest)) :
    let fired := fireTrigger env now elapsed entropy store entry
    Reaches (recordDue (submitDue env state index elapsed entropy) index) index now fired.2
      (remaining rest fired.1) := by
  obtain ⟨rfl, hfiring⟩ := h
  have hput := getElem?_put hfiring
  dsimp only
  unfold fireTrigger submitDue
  rw [hfiring]
  dsimp only
  rcases state.store.perform ⟨now, elapsed⟩ (submitJob state.store.options
    (cronSubmission env.sha256 entry) entropy) with ⟨error | ⟨job, duplicate⟩, submitted⟩
  · exact recordDue_ended ⟨rfl, hput submitted _⟩
  · dsimp only
    cases env.schedule entry.2.expression with
    | error error => exact recordDue_ended ⟨rfl, hput submitted _⟩
    | ok next =>
      have hstore : ∀ firing, (state.put submitted index firing).store = submitted :=
        fun _ => rfl
      unfold recordDue
      dsimp only
      rw [hput]
      dsimp only
      rw [hstore]
      rcases submitted.transact (recordOccurrence entry.1
        (timeFromDB entry.2.nextFireAt) job.id (next now) now) with ⟨error | _, recorded⟩
      · exact ⟨rfl, getElem?_put (hput submitted _) recorded _⟩
      · exact ⟨rfl, getElem?_put (hput submitted _) recorded _⟩

end Reached

theorem fireTurns_reaches (elapsed : Nat → Int) (entropy : Nat → Entropy) (turn : Nat) {index : Nat}
    (hcount : due.length ≤ count) (h : Reaches state index now store due) :
    Reaches (state.run env (fireTurns index elapsed entropy turn count)) index now
      (fireTriggers env now elapsed entropy turn store due).2 [] := by
  induction count generalizing turn state store due with
  | zero =>
    obtain rfl := List.length_eq_zero_iff.mp (Nat.le_zero.mp hcount)
    exact h
  | succ count ih =>
    change Reaches (CronState.run env (recordDue (submitDue _ _ _ _ _) _) _) _ _ _ _
    have hnone : ([] : List (String × CronRow)).length ≤ count := Nat.zero_le count
    cases due with
    | nil =>
      rw [submitDue_ended h]
      exact ih (turn + 1) hnone (recordDue_ended h)
    | cons entry rest =>
      have hturn : Reaches (recordDue (submitDue env state index (elapsed turn) (entropy turn))
        index) _ _ _ _ := turn_reaches h
      rcases hfire : fireTrigger env now (elapsed turn) (entropy turn) store entry with
        ⟨error | jobID, fired⟩ <;> rw [hfire] at hturn
      · rw [fireTriggers_failed hfire]
        exact ih (turn + 1) hnone hturn
      · rw [fireTriggers_fired hfire]
        exact ih (turn + 1) (Nat.le_of_succ_le_succ hcount) hturn

theorem fireDueCron_eq (env : Env) (store : StoreState) (now : Time) (limit : Int)
    (elapsed : Nat → Int) (entropy : Nat → Entropy) :
    fireDueCron env store now limit elapsed entropy =
      fireTriggers env now elapsed entropy 0 store (dueTriggers store.db now limit) := by
  unfold fireDueCron
  split
  · rename_i hlimit
    have hnone : dueTriggers store.db now limit = [] := by
      unfold dueTriggers
      rw [Int.toNat_eq_zero.mpr (Int.le_of_lt_add_one hlimit), List.take_zero]
    rw [hnone]
    rfl
  · rfl

theorem run_fireTurns (env : Env) (state : CronState) (now : Time) (limit : Int)
    (elapsed : Nat → Int) (entropy : Nat → Entropy) :
    Reaches ((state.advance env (.fire now limit)).run env (fireTurns state.firings.length elapsed
        entropy 0 (dueTriggers state.store.db now limit).length))
      state.firings.length now (fireDueCron env state.store now limit elapsed entropy).2 [] := by
  have hbegin : Reaches (state.advance env (.fire now limit)) state.firings.length now state.store
      (dueTriggers state.store.db now limit) :=
    ⟨rfl, List.getElem?_concat_length⟩
  rw [fireDueCron_eq]
  exact fireTurns_reaches elapsed entropy 0 (Nat.le_refl _) hbegin

theorem fireTurns_alone (index : Nat) (elapsed : Nat → Int) (entropy : Nat → Entropy)
    (turn count : Nat) :
    ∀ event ∈ fireTurns index elapsed entropy turn count, event.alone index = true := by
  induction count generalizing turn with
  | zero => exact fun _ hevent => nomatch hevent
  | succ count ih =>
    unfold fireTurns
    rw [List.forall_mem_cons, List.forall_mem_cons]
    exact ⟨decide_eq_true rfl, decide_eq_true rfl, ih (turn + 1)⟩

end Turns

end RailYard.Refinement
