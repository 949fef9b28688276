import RailYard.Library.Trace
import RailYard.Refinement.Registered
import RailYard.Server.Cron

/-! Cron triggers and the calls that fire them. A trigger keeps everything but its
next time, which only the record of an occurrence changes; the jobs that the calls
submit are those their keys stand for. -/
namespace RailYard.Refinement
open Library Library.Transaction Domain Store Server
open Lifecycle

variable {env : Env}

section Triggers

theorem Postponed.refl (row : CronRow) : Postponed row row := rfl

theorem Postponed.expression (h : Postponed row row') : row'.expression = row.expression := by
  rw [h]

theorem Postponed.trans (h : Postponed row row') (h' : Postponed row' row'') :
    Postponed row row'' := by
  unfold Postponed at h h' ⊢
  rw [h'] at ⊢
  rw [h]

def TriggersKept (db db' : Database) : Prop :=
  ∀ id row, db.cronTriggers.get? id = some row →
    ∃ row', db'.cronTriggers.get? id = some row' ∧ Postponed row row'

instance : IsPreorder Database TriggersKept where
  refl _ _ row hrow := ⟨row, hrow, .refl row⟩
  trans _ _ _ first second id row hrow := by
    obtain ⟨row', hrow', hkept⟩ := first id row hrow
    obtain ⟨row'', hrow'', hkept'⟩ := second id row' hrow'
    exact ⟨row'', hrow'', hkept.trans hkept'⟩

theorem triggersKept_same (h : db'.cronTriggers = db.cronTriggers) : TriggersKept db db' :=
  fun _ row hrow => ⟨row, by rw [h]; exact hrow, .refl row⟩

theorem triggersKept_insert {id : String} (h : db'.cronTriggers = db.cronTriggers.insert id row) :
    TriggersKept db db' := by
  intro other found hfound
  refine ⟨found, ?_, .refl found⟩
  rw [h]
  exact Table.get?_insert_of_get? _ _ _ hfound

theorem triggersKept_modify {id : String} (hchange : ∀ row, Postponed row (change row))
    (h : db'.cronTriggers = db.cronTriggers.modify id change) : TriggersKept db db' := by
  intro other found hfound
  by_cases hother : other = id
  · refine ⟨change found, ?_, hchange found⟩
    rw [h, hother, Table.get?_modify_self, ← hother, hfound]
    rfl
  · refine ⟨found, ?_, .refl found⟩
    rw [h, Table.get?_modify_ne _ _ hother, hfound]

theorem aloof_cronTriggers : Aloof Database.cronTriggers := by
  refine { toApart := ?_, attempts := fun _ _ => rfl }
  constructor <;> intros <;> rfl

theorem aloof_cronOccurrences : Aloof Database.cronOccurrences := by
  refine { toApart := ?_, attempts := fun _ _ => rfl }
  constructor <;> intros <;> rfl

theorem outside_cronTriggers {area : Area} (htriggers : area ≠ .triggers)
    (hoccurrences : area ≠ .occurrences) : Outside Database.cronTriggers area := by
  cases area with
  | triggers => exact (htriggers rfl).elim
  | occurrences => exact (hoccurrences rfl).elim
  | _ =>
    dsimp only [Outside, Deaf]
    repeat' constructor
    all_goals intros; rfl

structure NewTrigger (env : Env) (now : Time) (row : CronRow) : Prop where
  schedule : ∃ next, env.parseCron row.expression = some next ∧
    row.nextFireAt = timeToDB (next now)
  createdAt : row.createdAt = timeToDB now

theorem schedule_ok (h : env.schedule expression = .ok next) :
    env.parseCron expression = some next := by
  unfold Env.schedule at h
  split at h
  · rename_i found hfound
    cases h
    exact hfound
  · cases h

theorem schedule_error (h : env.schedule expression = .error error) :
    env.parseCron expression = none := by
  unfold Env.schedule at h
  split at h
  · cases h
  · rename_i hnone
    exact hnone

theorem createCronTrigger_row
    (h : createCronTrigger env options submission entropy now db = .ok result db') :
    db'.cronTriggers = db.cronTriggers ∨
      ∃ id row, db.cronTriggers.get? id = none ∧ NewTrigger env now row ∧
        row.expression = submission.expression ∧
        db'.cronTriggers = db.cronTriggers.insert id row := by
  obtain ⟨_, _, h⟩ := lift_bind h
  obtain ⟨next, hnext, h⟩ := lift_bind h
  obtain ⟨_, _, h⟩ := lift_bind h
  rcases readIdempotency_bind h with ⟨_, _, h⟩ | ⟨_, h⟩
  · obtain ⟨_, rfl⟩ := pure_ok h
    exact .inl rfl
  · obtain ⟨_, h⟩ := require_bind h
    obtain ⟨_, db2, hinsert, h⟩ := bind_ok h
    obtain ⟨_, db3, hrecord, h⟩ := bind_ok h
    obtain ⟨_, rfl⟩ := pure_ok h
    obtain ⟨habsent, rfl⟩ := insert_ok hinsert
    have hrecorded : db3.cronTriggers = _ :=
      Preserves.ok (relates_recordIdempotency (fun _ _ => rfl) _ _ _) hrecord
    exact .inr ⟨_, _, habsent, ⟨⟨next, schedule_ok hnext, rfl⟩, rfl⟩, rfl, hrecorded⟩

theorem triggers_step {store : StoreState} {call : Call} (h : recordsOccurrence call.op = false) :
    (step env store call).2.db.cronTriggers = store.db.cronTriggers ∨
      ∃ submission entropy id row, call.op = .createCronTrigger submission entropy ∧
        store.db.cronTriggers.get? id = none ∧ NewTrigger env (callTime store call) row ∧
        row.expression = submission.expression ∧
        (step env store call).2.db.cronTriggers = store.db.cronTriggers.insert id row := by
  by_cases hcreate : ∃ submission entropy, call.op = .createCronTrigger submission entropy
  · obtain ⟨submission, entropy, hop⟩ := hcreate
    rcases step_cases env store call with hsame | ⟨now, reply, hnow, _, hrun⟩
    · rw [hsame]
      exact .inl rfl
    · rw [hop] at hrun hnow
      rw [← hnow rfl]
      obtain ⟨_, _, hrun⟩ := bind_pure_ok hrun
      rcases createCronTrigger_row hrun with hsame | ⟨id, row, habsent, hnew, hexpression, hinsert⟩
      · exact .inl hsame
      · exact .inr ⟨submission, entropy, id, row, hop, habsent, hnew, hexpression, hinsert⟩
  · refine .inl (step_preserves aloof_cronTriggers (outside_cronTriggers ?_ ?_))
    · intro harea
      cases hop : call.op with
      | createCronTrigger submission entropy => exact hcreate ⟨submission, entropy, hop⟩
      | _ => rw [hop] at harea; cases harea
    · intro harea
      cases hop : call.op with
      | recordOccurrence => rw [hop] at h; cases h
      | _ => rw [hop] at harea; cases harea

def advanced (next firedAt : Time) (row : CronRow) : CronRow :=
  { row with nextFireAt := timeToDB next, updatedAt := timeToDB firedAt }

/-- The trigger after an occurrence: advanced unless someone else has been faster. -/
def postponed (nominal next firedAt : Time) (row : CronRow) : CronRow :=
  if row.nextFireAt = timeToDB nominal then advanced next firedAt row else row

theorem postponed_kept (nominal next firedAt : Time) (row : CronRow) :
    Postponed row (postponed nominal next firedAt row) := by
  unfold postponed
  split <;> rfl

theorem update_eq_modify {id : String}
    (h : (update Store.cronTriggers id (fun row => row.nextFireAt = timeToDB nominal)
      (advanced next firedAt) : Tx Bool) db = .ok affected db') :
    db' = { db with
      cronTriggers := db.cronTriggers.modify id (postponed nominal next firedAt) } := by
  rcases update_ok h with ⟨_, row, hrow, hguard, rfl⟩ | ⟨_, hguard, rfl⟩
  · have hchange : postponed nominal next firedAt row = advanced next firedAt row :=
      if_pos (of_decide_eq_true hguard)
    rw [Table.modify_congr db.cronTriggers hrow hchange]
    rfl
  · have hmodify : db.cronTriggers.modify id (postponed nominal next firedAt) = db.cronTriggers :=
      Table.modify_self db.cronTriggers fun row hrow =>
        if_neg (of_decide_eq_false (hguard row hrow))
    rw [hmodify]

theorem recordOccurrence_ok {id : String}
    (h : recordOccurrence id nominal jobID next firedAt db = .ok () db') :
    ∃ occurrences, (∀ key row, db.cronOccurrences.get? key = some row →
        occurrences.get? key = some row) ∧
      (occurrences.get? (id, timeToDB nominal)).isSome ∧
      db' = { db with
        cronOccurrences := occurrences
        cronTriggers := db.cronTriggers.modify id (postponed nominal next firedAt) } := by
  replace h := query_bind h
  obtain ⟨added, db1, hinsert, h⟩ := bind_ok h
  obtain ⟨_, h⟩ := require_bind h
  obtain ⟨_, db2, hupdate, h⟩ := bind_ok h
  obtain ⟨_, rfl⟩ := pure_ok h
  rw [update_eq_modify hupdate]
  rcases insertIfAbsent_ok hinsert with ⟨_, ⟨row, hrow⟩, rfl⟩ | ⟨_, habsent, rfl⟩
  · refine ⟨db.cronOccurrences, fun _ _ hkept => hkept, ?_, rfl⟩
    rw [show db.cronOccurrences.get? _ = some row from hrow]
    rfl
  · refine ⟨_, fun key row hrow => Table.get?_insert_of_get? _ _ _ hrow, ?_, rfl⟩
    exact Option.isSome_iff_exists.mpr ⟨_, Table.get?_insert_self _ _ habsent⟩

theorem recordOccurrence_succeeds {id : String} (nominal next firedAt : Time)
    (hrow : db.cronTriggers.get? id = some row) (hjob : (db.jobs.get? jobID).isSome) :
    Succeeds (recordOccurrence id nominal jobID next firedAt) db := by
  refine .bind (.query _) fun targets _ hquery => ?_
  obtain ⟨rfl, rfl⟩ := query_ok hquery
  refine .bind (.insertIfAbsent _) fun _ _ _ => ?_
  refine .bind (.require fun _ => ?_) fun _ _ _ => .bind (.update _ _) fun _ _ _ => .pure ()
  rw [hrow, hjob]
  rfl

end Triggers

section Firings

/-- What a call on the store leaves of what the calls of `FireDueCron` rely on. -/
structure Onward (db db' : Database) : Prop where
  triggers : TriggersKept db db'
  requests : Kept db db'

theorem Onward.same (h : db' = db) : Onward db db' := by
  rw [h]
  exact ⟨refl_of TriggersKept db, fun _ _ hrow => hrow⟩

theorem onward_step (h : recordsOccurrence call.op = false) :
    Onward store.db (step env store call).2.db := by
  refine ⟨?_, kept_step env store call⟩
  rcases triggers_step h with hsame | ⟨_, _, _, _, _, _, _, _, hinsert⟩
  · exact triggersKept_same hsame
  · exact triggersKept_insert hinsert

/-- What an event does: nothing, what another call does, or a step of one of the
calls of `FireDueCron`. -/
inductive CronStep (env : Env) (state : CronState) : CronEvent → CronState → Prop
  | idle event : CronStep env state event state
  | call call (other : recordsOccurrence call.op = false) :
      CronStep env state (.call call) { state with store := (step env state.store call).2 }
  | fire now limit : CronStep env state (.fire now limit)
      { state with
        firings := state.firings ++ [⟨now, dueTriggers state.store.db now limit, none⟩] }
  | refused {index now entry rest elapsed entropy error failed}
      (firing : state.firings[index]? = some ⟨now, entry :: rest, none⟩)
      (perform : state.store.perform ⟨now, elapsed⟩ (submitJob state.store.options
        (cronSubmission env.sha256 entry) entropy) = (.error error, failed)) :
      CronStep env state (.submit index elapsed entropy) (state.put failed index ⟨now, [], none⟩)
  | submitted {index now entry rest elapsed entropy job duplicate submitted firing'}
      (firing : state.firings[index]? = some ⟨now, entry :: rest, none⟩)
      (perform : state.store.perform ⟨now, elapsed⟩ (submitJob state.store.options
        (cronSubmission env.sha256 entry) entropy) = (.ok (job, duplicate), submitted))
      (next : env.parseCron entry.2.expression = none ∧ firing' = ⟨now, [], none⟩ ∨
        ∃ next, env.parseCron entry.2.expression = some next ∧
          firing' = ⟨now, entry :: rest, some (job.id, next now)⟩) :
      CronStep env state (.submit index elapsed entropy)
        { state.put submitted index firing' with
          yields := state.yields ++
            [⟨entry.1, timeFromDB entry.2.nextFireAt, now, job.id, duplicate⟩] }
  | failed {index now entry rest jobID next}
      (firing : state.firings[index]? = some ⟨now, entry :: rest, some (jobID, next)⟩)
      (fails : ∀ db, recordOccurrence entry.1 (timeFromDB entry.2.nextFireAt) jobID next now
        state.store.db ≠ .ok () db) :
      CronStep env state (.record index) (state.put state.store index ⟨now, [], none⟩)
  | recorded {index now entry rest jobID next recorded}
      (firing : state.firings[index]? = some ⟨now, entry :: rest, some (jobID, next)⟩)
      (run : recordOccurrence entry.1 (timeFromDB entry.2.nextFireAt) jobID next now
        state.store.db = .ok () recorded.db) :
      CronStep env state (.record index) (state.put recorded index ⟨now, rest, none⟩)
  | crash index : CronStep env state (.crash index)
      { state with firings := state.firings.modify index fun firing => ⟨firing.now, [], none⟩ }

theorem cronStep (env : Env) (state : CronState) (event : CronEvent) :
    CronStep env state event (state.advance env event) := by
  cases event with
  | call call =>
    rw [CronState.advance]
    split
    · exact .idle _
    · rename_i hcall
      exact .call call (Bool.eq_false_iff.mpr hcall)
  | fire now limit => exact .fire now limit
  | submit index elapsed entropy =>
    rw [CronState.advance]
    unfold submitDue
    split
    · rename_i hfiring
      split
      · rename_i hperform
        exact .refused hfiring hperform
      · rename_i hperform
        refine .submitted hfiring hperform ?_
        split
        · rename_i hnext
          exact .inl ⟨schedule_error hnext, rfl⟩
        · rename_i next hnext
          exact .inr ⟨next, schedule_ok hnext, rfl⟩
    · exact .idle _
  | record index =>
    rw [CronState.advance]
    unfold recordDue
    split
    · rename_i hfiring
      split
      · rename_i htransact
        obtain ⟨hfails, rfl⟩ := transact_error htransact
        exact .failed hfiring (hfails ())
      · rename_i htransact
        exact .recorded hfiring (transact_ok htransact).1
    · exact .idle _
  | crash index => exact .crash index

def occurrenceKey (env : Env) (row : CronRow) (triggerID : String) (nominal : Time) :
    String × String :=
  (row.job.normalize.tenantID, cronOccurrenceKey env.sha256 triggerID nominal)

/-- What a call of `FireDueCron` has read is still there, apart from the next
times, and the job at hand is the one its key stands for. -/
structure FiringSound (env : Env) (db : Database) (firing : Firing) : Prop where
  read : ∀ entry ∈ firing.due,
    ∃ row, db.cronTriggers.get? entry.1 = some row ∧ Postponed entry.2 row
  due : ∀ entry ∈ firing.due, entry.2.nextFireAt ≤ timeToDB firing.now ∧
    int64 entry.2.nextFireAt = entry.2.nextFireAt
  submitted : ∀ jobID next, firing.submitted = some (jobID, next) →
    ∃ entry rest, firing.due = entry :: rest ∧
      (∃ schedule, env.parseCron entry.2.expression = some schedule ∧ next = schedule firing.now) ∧
      registered db (submissionKey (cronSubmission env.sha256 entry)) = some jobID

def YieldSound (env : Env) (db : Database) (yield : Yield) : Prop :=
  ∃ row, db.cronTriggers.get? yield.triggerID = some row ∧
    registered db (occurrenceKey env row yield.triggerID yield.nominal) = some yield.jobID

def SameJob (yield yield' : Yield) : Prop :=
  yield.triggerID = yield'.triggerID → yield.nominal = yield'.nominal →
    yield'.jobID = yield.jobID ∧ yield'.duplicate = true

def TriggersSound (env : Env) (db : Database) : Prop :=
  ∀ id row, db.cronTriggers.get? id = some row →
    (env.parseCron row.expression).isSome ∧ int64 row.nextFireAt = row.nextFireAt

structure CronSound (env : Env) (state : CronState) : Prop where
  registry : Registry state.store.db
  triggers : TriggersSound env state.store.db
  firings : ∀ firing ∈ state.firings, FiringSound env state.store.db firing
  yields : ∀ yield ∈ state.yields, YieldSound env state.store.db yield
  once : state.yields.Pairwise SameJob

theorem TriggersSound.step (h : TriggersSound env store.db)
    (hcall : recordsOccurrence call.op = false) :
    TriggersSound env (step env store call).2.db := by
  rcases triggers_step hcall with hsame | ⟨_, _, id, row, _, habsent, hnew, _, hinsert⟩
  · unfold TriggersSound
    rw [hsame]
    exact h
  · intro other found hfound
    rw [hinsert, Table.get?_insert] at hfound
    split at hfound
    · rw [habsent] at hfound
      cases hfound
      obtain ⟨next, hnext, htime⟩ := hnew.schedule
      rw [Option.getD_none, hnext, htime]
      exact ⟨rfl, int64_int64 _⟩
    · exact h other found hfound

theorem TriggersSound.modify {id : String} (h : TriggersSound env db)
    (heq : db'.cronTriggers = db.cronTriggers.modify id (postponed nominal next firedAt)) :
    TriggersSound env db' := by
  intro other found hfound
  rw [heq, Table.get?_modify] at hfound
  split at hfound
  · obtain ⟨row, hrow, rfl⟩ := Option.map_eq_some_iff.mp hfound
    obtain ⟨hparsed, hfits⟩ := h id row hrow
    unfold postponed
    split
    · exact ⟨hparsed, int64_int64 _⟩
    · exact ⟨hparsed, hfits⟩
  · exact h other found hfound

theorem FiringSound.stopped (env : Env) (db : Database) (now : Time) :
    FiringSound env db ⟨now, [], none⟩ where
  read _ hentry := nomatch hentry
  due _ hentry := nomatch hentry
  submitted _ _ hsubmitted := nomatch hsubmitted

theorem FiringSound.head {entry : String × CronRow}
    (h : FiringSound env db ⟨now, entry :: rest, some (jobID, next)⟩) :
    (∃ schedule, env.parseCron entry.2.expression = some schedule ∧ next = schedule now) ∧
      registered db (submissionKey (cronSubmission env.sha256 entry)) = some jobID := by
  obtain ⟨first, others, hdue, hnext⟩ := h.submitted jobID next rfl
  cases hdue
  exact hnext

theorem FiringSound.onward (h : FiringSound env db firing) (onward : Onward db db') :
    FiringSound env db' firing where
  read entry hentry := by
    obtain ⟨row, hrow, hread⟩ := h.read entry hentry
    obtain ⟨row', hrow', hkept⟩ := onward.triggers entry.1 row hrow
    exact ⟨row', hrow', hread.trans hkept⟩
  due := h.due
  submitted jobID next hsubmitted := by
    obtain ⟨entry, rest, hdue, hnext, hjob⟩ := h.submitted jobID next hsubmitted
    exact ⟨entry, rest, hdue, hnext, registered_kept onward.requests hjob⟩

theorem Postponed.key (h : Postponed row row') (triggerID : String) (nominal : Time) :
    occurrenceKey env row' triggerID nominal =
      occurrenceKey env row triggerID nominal := by
  rw [h]
  rfl

theorem YieldSound.onward (h : YieldSound env db yield) (onward : Onward db db') :
    YieldSound env db' yield := by
  obtain ⟨row, hrow, hjob⟩ := h
  obtain ⟨row', hrow', hkept⟩ := onward.triggers yield.triggerID row hrow
  refine ⟨row', hrow', ?_⟩
  rw [hkept.key]
  exact registered_kept onward.requests hjob

theorem CronSound.put (h : CronSound env state) {index : Nat}
    (onward : Onward state.store.db store'.db) (registry : Registry store'.db)
    (triggers : TriggersSound env store'.db) (hfiring : FiringSound env store'.db firing) :
    CronSound env (state.put store' index firing) where
  registry := registry
  triggers := triggers
  firings other hother := by
    rcases List.mem_or_eq_of_mem_set hother with hold | rfl
    · exact (h.firings other hold).onward onward
    · exact hfiring
  yields yield hyield := (h.yields yield hyield).onward onward
  once := h.once

/-- The turn has been submitted: an earlier yield of the same occurrence has the
same key, and so the same job. -/
theorem CronSound.yielded (h : CronSound env state) {index : Nat} {entry : String × CronRow}
    {firedAt : Time} (onward : Onward state.store.db store'.db)
    (hput : CronSound env (state.put store' index firing))
    (hrow : state.store.db.cronTriggers.get? entry.1 = some row) (hread : Postponed entry.2 row)
    (hsubmitted : Submitted (cronSubmission env.sha256 entry) state.store.db store'.db jobID
      duplicate) :
    CronSound env { state.put store' index firing with
      yields := state.yields ++
        [⟨entry.1, timeFromDB entry.2.nextFireAt, firedAt, jobID, duplicate⟩] } := by
  have hkey : submissionKey (cronSubmission env.sha256 entry) =
      occurrenceKey env entry.2 entry.1 (timeFromDB entry.2.nextFireAt) := rfl
  refine { hput with yields := ?_, once := ?_ }
  · refine List.forall_mem_append.mpr ⟨hput.yields, ?_⟩
    rw [List.forall_mem_singleton]
    obtain ⟨row', hrow', hkept⟩ := onward.triggers entry.1 row hrow
    refine ⟨row', hrow', ?_⟩
    rw [(hread.trans hkept).key]
    exact hsubmitted.registered
  · rw [List.pairwise_append]
    refine ⟨h.once, List.pairwise_singleton _ _, ?_⟩
    intro earlier hearlier later hlater htrigger hnominal
    rw [List.mem_singleton] at hlater
    subst hlater
    obtain ⟨found, hfound, hjob⟩ := h.yields earlier hearlier
    rw [htrigger] at hfound
    rw [hrow, Option.some.injEq] at hfound
    rw [htrigger, hnominal, ← hfound, hread.key, ← hkey] at hjob
    exact hsubmitted.unique hjob

theorem CronSound.submitted (h : CronSound env state) {index : Nat} {elapsed : Int}
    {entropy : Entropy} {entry : String × CronRow} {rest : List (String × CronRow)} {job : Job}
    {duplicate : Bool} {firing : Firing}
    (hfiring : state.firings[index]? = some ⟨now, entry :: rest, none⟩)
    (hperform : state.store.perform ⟨now, elapsed⟩ (submitJob state.store.options
      (cronSubmission env.sha256 entry) entropy) = (.ok (job, duplicate), store'))
    (hnext : env.parseCron entry.2.expression = none ∧ firing = ⟨now, [], none⟩ ∨
      ∃ next, env.parseCron entry.2.expression = some next ∧
        firing = ⟨now, entry :: rest, some (job.id, next now)⟩) :
    CronSound env { state.put store' index firing with
      yields := state.yields ++
        [⟨entry.1, timeFromDB entry.2.nextFireAt, now, job.id, duplicate⟩] } := by
  have hsubmitted := perform_submitted h.registry hperform
  have hstep := perform_submitJob env hperform
  have onward : Onward state.store.db store'.db := by
    rw [hstep]
    exact onward_step rfl
  have hsound := h.firings _ (List.mem_of_getElem? hfiring)
  have hnow := hsound.onward onward
  obtain ⟨row, hrow, hread⟩ := hsound.read entry (List.mem_cons_self ..)
  refine h.yielded onward (h.put onward ?_ ?_ ?_) hrow hread hsubmitted
  · rw [hstep]
    exact h.registry.step env _
  · rw [hstep]
    exact h.triggers.step rfl
  · rcases hnext with ⟨_, rfl⟩ | ⟨next, hparsed, rfl⟩
    · exact .stopped env _ now
    · refine ⟨hnow.read, hnow.due, ?_⟩
      rintro jobID time ⟨⟩
      exact ⟨entry, rest, rfl, ⟨next, hparsed, rfl⟩, hsubmitted.registered⟩

theorem CronSound.recorded (h : CronSound env state) {index : Nat} {entry : String × CronRow}
    (hfiring : state.firings[index]? = some ⟨now, entry :: rest, some (jobID, next)⟩)
    (hrun : recordOccurrence entry.1 (timeFromDB entry.2.nextFireAt) jobID next now
      state.store.db = .ok () store'.db) :
    CronSound env (state.put store' index ⟨now, rest, none⟩) := by
  obtain ⟨occurrences, _, _, hdb⟩ := recordOccurrence_ok hrun
  have onward : Onward state.store.db store'.db := by
    rw [hdb]
    exact ⟨triggersKept_modify (postponed_kept _ next now) rfl, fun _ _ hrow => hrow⟩
  have hnow := (h.firings _ (List.mem_of_getElem? hfiring)).onward onward
  refine h.put onward ?_ (h.triggers.modify (by rw [hdb])) ?_
  · exact h.registry.same (by rw [hdb]) (by rw [hdb]; exact refl_of JobsKept _)
  · exact ⟨fun other hother => hnow.read other (List.mem_cons_of_mem _ hother),
      fun other hother => hnow.due other (List.mem_cons_of_mem _ hother),
      fun _ _ hsubmitted => nomatch hsubmitted⟩

theorem mem_dueTriggers {entry : String × CronRow} (h : entry ∈ dueTriggers db now limit) :
    db.cronTriggers.get? entry.1 = some entry.2 ∧ entry.2.nextFireAt ≤ timeToDB now := by
  have hsorted := List.mem_of_mem_take h
  rw [List.mem_insertionSort, List.mem_filter, Bool.and_eq_true, decide_eq_true_eq] at hsorted
  exact ⟨(Table.mem_rows_iff _ _ _).mp hsorted.1, hsorted.2.2⟩

theorem CronSound.fire (h : CronSound env state) (now : Time) (limit : Int) :
    CronSound env (state.advance env (.fire now limit)) := by
  refine { h with firings := List.forall_mem_append.mpr ⟨h.firings, ?_⟩ }
  rw [List.forall_mem_singleton]
  refine ⟨?_, ?_, fun _ _ hsubmitted => nomatch hsubmitted⟩
  · intro entry hentry
    exact ⟨entry.2, (mem_dueTriggers hentry).1, .refl entry.2⟩
  · intro entry hentry
    obtain ⟨hrow, hdue⟩ := mem_dueTriggers hentry
    exact ⟨hdue, (h.triggers entry.1 entry.2 hrow).2⟩

theorem CronSound.crash (h : CronSound env state) (index : Nat) :
    CronSound env (state.advance env (.crash index)) := by
  refine { h with firings := fun firing hfiring => ?_ }
  obtain ⟨position, hposition⟩ := List.mem_iff_getElem?.mp hfiring
  simp only [CronState.advance, List.getElem?_modify] at hposition
  obtain ⟨old, hold, rfl⟩ := Option.map_eq_some_iff.mp hposition
  split
  · exact .stopped env state.store.db old.now
  · exact h.firings old (List.mem_of_getElem? hold)

theorem CronSound.advance (h : CronSound env state) (event : CronEvent) :
    CronSound env (state.advance env event) := by
  have hstep := cronStep env state event
  generalize state.advance env event = state' at hstep ⊢
  cases hstep with
  | idle => exact h
  | call call hcall =>
    have onward : Onward state.store.db (step env state.store call).2.db := onward_step hcall
    exact {
      registry := h.registry.step env call
      triggers := h.triggers.step hcall
      firings := fun firing hfiring => (h.firings firing hfiring).onward onward
      yields := fun yield hyield => (h.yields yield hyield).onward onward
      once := h.once }
  | fire now limit => exact h.fire now limit
  | refused _ hperform =>
    have hdb := perform_error hperform
    refine h.put (.same hdb) ?_ ?_ (.stopped ..) <;> rw [hdb]
    · exact h.registry
    · exact h.triggers
  | submitted hfiring hperform hnext => exact h.submitted hfiring hperform hnext
  | failed => exact h.put (.same rfl) h.registry h.triggers (.stopped ..)
  | recorded hfiring hrun => exact h.recorded hfiring hrun
  | crash index => exact h.crash index

theorem cronSound_fresh (env : Env) (options : Options) : CronSound env ⟨freshStore options, [], []⟩ where
  registry := registry_empty
  triggers := fun _ _ hrow => nomatch hrow
  firings := fun _ hfiring => nomatch hfiring
  yields := fun _ hyield => nomatch hyield
  once := .nil

theorem CronSound.run (h : CronSound env state) (events : List CronEvent) :
    CronSound env (state.run env events) :=
  Throughout.keeps (fun _ event hstate _ => hstate.advance event) h
    (.always (fun _ _ => trivial) state events)

end Firings

end RailYard.Refinement
