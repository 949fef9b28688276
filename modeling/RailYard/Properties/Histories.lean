import RailYard.Library.Trace
import RailYard.Store.History
import RailYard.Refinement.Payloads
import RailYard.Properties.Records
import RailYard.Properties.DeadLetters

/-! The history of a job as its readers see it. A page can be read if no payload
on it was bound as text, and following the pages from the newest event on gives
what was there at the first request, whatever is appended meanwhile. -/
namespace RailYard.Properties
open Library.Transaction Domain Store
open Refinement Lifecycle

section Pages

variable {db db' : Database} {id : String} {rows : List EventRow} {events : List JobEvent}
  {query : HistoryQuery} {page : JobHistoryPage}

theorem scanJobEvent_ok (h : scanJobEvent row = .ok event) :
    row.storage = .blob ∧ event = toJobEvent row := by
  unfold scanJobEvent at h
  split at h
  · cases h
  · next hblob =>
    cases h
    exact ⟨hblob, rfl⟩

theorem scan_ok (h : rows.mapM' scanJobEvent = .ok events) :
    (∀ row ∈ rows, row.storage = .blob) ∧ events = rows.map toJobEvent := by
  induction rows generalizing events with
  | nil =>
    cases h
    simp
  | cons row rest ih =>
    obtain ⟨event, hevent, h⟩ := except_bind_ok h
    obtain ⟨others, hothers, h⟩ := except_bind_ok h
    cases h
    obtain ⟨hblob, rfl⟩ := scanJobEvent_ok hevent
    obtain ⟨hrest, rfl⟩ := ih hothers
    simp only [List.mem_cons, forall_eq_or_imp, List.map_cons]
    exact ⟨⟨hblob, hrest⟩, trivial⟩

theorem scan_run (h : ∀ row ∈ rows, row.storage = .blob) :
    rows.mapM' scanJobEvent = .ok (rows.map toJobEvent) := by
  induction rows with
  | nil => rfl
  | cons row rest ih =>
    rw [List.forall_mem_cons] at h
    have hrow : scanJobEvent row = .ok (toJobEvent row) := by
      unfold scanJobEvent
      rw [h.1]
    rw [List.mapM'_cons, hrow, ih h.2]
    rfl

def fetched (db : Database) (id : String) (query : HistoryQuery) : List EventRow :=
  (olderEvents db id query.before).take (query.limit + 1)

theorem jobHistory_ok_iff (hjob : (db.jobs.get? id).isSome = true) :
    jobHistory db id query = .ok page ↔
      (∀ row ∈ fetched db id query, row.storage = .blob) ∧
        page = pageOf query.limit ((fetched db id query).map toJobEvent) := by
  have hpresent : (db.jobs.get? id).isNone = false := by simpa using hjob
  have hrun : jobHistory db id query = ((fetched db id query).mapM' scanJobEvent).bind fun events =>
        .ok (pageOf query.limit events) := by
    unfold jobHistory
    rw [hpresent]
    rfl
  rw [hrun]
  constructor
  · intro h
    obtain ⟨events, hevents, h⟩ := except_bind_ok h
    obtain ⟨hblob, rfl⟩ := scan_ok hevents
    cases h
    exact ⟨hblob, rfl⟩
  · rintro ⟨hblob, hpage⟩
    rw [scan_run hblob, hpage]
    rfl

end Pages

section Logs

variable {db db' : Database} {id : String} {before : Int}

theorem mem_olderEvents : event ∈ olderEvents db id before ↔
    event ∈ db.events ∧ event.jobID = id ∧ event.eventSeq < before := by
  unfold olderEvents
  rw [List.mem_insertionSort, List.mem_filter, decide_eq_true_iff]

variable (numbered : Numbered (db.events.map entry))

include numbered

theorem eq_of_eventSeq {second : EventRow}
    (hfirst : first ∈ db.events) (hsecond : second ∈ db.events)
    (h : first.eventSeq = second.eventSeq) : first = second := by
  obtain ⟨i, hi, rfl⟩ := List.mem_iff_getElem.mp hfirst
  obtain ⟨j, hj, rfl⟩ := List.mem_iff_getElem.mp hsecond
  have hascending := List.pairwise_iff_getElem.mp (events_ascending numbered)
  rcases lt_trichotomy i j with hless | rfl | hmore
  · exact absurd h (hascending i j hi hj hless).ne
  · rfl
  · exact absurd h (hascending j i hj hi hmore).ne'

theorem olderEvents_eq : olderEvents db id before =
      (db.events.filter fun event => event.jobID = id ∧ event.eventSeq < before).reverse := by
  have hascending : (db.events.filter fun event => event.jobID = id ∧
      event.eventSeq < before).Pairwise fun first second => first.eventSeq < second.eventSeq :=
    (events_ascending numbered).sublist List.filter_sublist
  have hdescending := List.pairwise_reverse.mpr hascending
  have hperm := (List.perm_insertionSort (fun a b : EventRow => b.eventSeq ≤ a.eventSeq)
    (db.events.filter fun event => event.jobID = id ∧ event.eventSeq < before)).trans
    (List.reverse_perm _).symm
  refine hperm.eq_of_pairwise ?_ (List.pairwise_insertionSort _ _)
    (hdescending.imp fun hless => Int.le_of_lt hless)
  intro first second hfirst hsecond hle hge
  rw [List.mem_reverse] at hsecond
  exact eq_of_eventSeq numbered (mem_olderEvents.mp hfirst).1 (List.mem_filter.mp hsecond).1
    (le_antisymm hge hle)

theorem olderEvents_descending :
    (olderEvents db id before).Pairwise fun first second => second.eventSeq < first.eventSeq := by
  rw [olderEvents_eq numbered, List.pairwise_reverse]
  exact (events_ascending numbered).sublist List.filter_sublist

theorem olderEvents_filter (h : earlier ≤ before) : olderEvents db id earlier =
      (olderEvents db id before).filter fun event => event.eventSeq < earlier := by
  rw [olderEvents_eq numbered, olderEvents_eq numbered, List.filter_reverse, List.filter_filter]
  congr 1
  apply List.filter_congr
  intro event _
  have hless : event.eventSeq < earlier → event.eventSeq < before := by omega
  rw [← Bool.decide_and, decide_eq_decide]
  tauto

theorem olderEvents_after (h : olderEvents db id before = front ++ event :: back) :
    olderEvents db id event.eventSeq = back := by
  have hdescending : (olderEvents db id before).Pairwise fun first second =>
      second.eventSeq < first.eventSeq := olderEvents_descending numbered
  have hevent : event ∈ olderEvents db id before := by simp [h]
  rw [olderEvents_filter numbered (mem_olderEvents.mp hevent).2.2.le]
  rw [h, List.pairwise_append, List.pairwise_cons] at hdescending
  obtain ⟨_, ⟨hback, _⟩, hfront⟩ := hdescending
  have hnone : front.filter (fun other => other.eventSeq < event.eventSeq) = [] := by
    rw [List.filter_eq_nil_iff]
    intro other hother
    have hless := hfront other hother event List.mem_cons_self
    simpa using hless.le
  have hall : back.filter (fun other => other.eventSeq < event.eventSeq) = back := by
    rw [List.filter_eq_self]
    intro other hother
    simpa using hback other hother
  rw [h, List.filter_append, hnone, List.filter_cons_of_neg (by simp), hall, List.nil_append]

theorem olderEvents_jobEvents : olderEvents db id before =
      (jobEvents db id).reverse.filter fun event => event.eventSeq < before := by
  rw [olderEvents_eq numbered, jobEvents_eq numbered, List.filter_reverse, List.filter_filter]
  congr 1
  apply List.filter_congr
  intro event _
  rw [← Bool.decide_and, decide_eq_decide]
  tauto

theorem eventSeq_at {place : Nat} (h : db.events[place]? = some event) :
    event.eventSeq = place + 1 := by
  have hentry : (db.events.map entry)[place]? = some (entry event) := by
    rw [List.getElem?_map, h]
    rfl
  exact numbered.place hentry

theorem eventSeq_of_getElem? {place : Nat}
    {event : EventRow} (h : (db.events.map outline)[place]? = some event) :
    event.eventSeq = place + 1 := by
  rw [List.getElem?_map, Option.map_eq_some_iff] at h
  obtain ⟨row, hrow, rfl⟩ := h
  have hseq : row.eventSeq = place + 1 := eventSeq_at numbered hrow
  exact hseq

theorem eventSeq_bounds (h : event ∈ db.events) :
    1 ≤ event.eventSeq ∧ event.eventSeq ≤ db.events.length := by
  obtain ⟨place, hplace⟩ := List.mem_iff_getElem?.mp h
  have hlt := (List.getElem?_eq_some_iff.mp hplace).1
  have hseq := eventSeq_at numbered hplace
  omega

theorem olderEvents_continues (continues : Continues db db')
    (numbered' : Numbered (db'.events.map entry))
    (h : before ≤ db.events.length + 1) :
    (olderEvents db' id before).map outline = (olderEvents db id before).map outline := by
  have houtlined : ∀ events : List EventRow,
      (events.filter fun event => event.jobID = id ∧ event.eventSeq < before).map outline =
        (events.map outline).filter fun event => event.jobID = id ∧ event.eventSeq < before := by
    intro events
    rw [List.filter_map]
    rfl
  obtain ⟨new, hnew⟩ := continues
  have hnone : (new.filter fun event => event.jobID = id ∧ event.eventSeq < before) = [] := by
    rw [List.filter_eq_nil_iff]
    intro event hevent
    obtain ⟨place, hplace⟩ := List.mem_iff_getElem?.mp hevent
    have hseq : event.eventSeq = (db.events.length + place : Nat) + 1 := by
      apply eventSeq_of_getElem? numbered'
      rw [← hnew, List.getElem?_append_right (by simp), List.length_map,
        Nat.add_sub_cancel_left, hplace]
    simp only [decide_eq_true_eq, not_and, not_lt]
    omega
  rw [olderEvents_eq numbered, olderEvents_eq numbered', List.map_reverse, List.map_reverse,
    houtlined, houtlined, ← hnew, List.filter_append, hnone, List.append_nil]

end Logs

section Writers

/-- The events that a call binds as bytes, by the number of events before it. -/
def Credits (op : Op) (length : Nat) (event : EventRow) : Prop :=
  match op with
  | .submitJob .. | .submitWorkflow .. => event.eventType = .jobAdmitted ∧ length < event.eventSeq
  | .redriveDeadLetter jobID _ _ _ entropy => Credited jobID (newID entropy) event
  | _ => False

/-- The call is carried out, and the event is among those that it binds as bytes. A
redrive reaches back to the events that its job already has. -/
def BindsBytes (env : Env) (store : StoreState) (call : Call) (event : EventRow) : Prop :=
  let length := (step env store call).2.db.events.length
  store.db.events.length < length ∧ event.eventSeq ≤ length ∧
    Credits call.op store.db.events.length event

theorem credits_outline : Credits op length (outline event) ↔ Credits op length event := by
  cases op <;> rfl

theorem bindsBytes_outline (h : outline old = outline event) :
    BindsBytes env store call old ↔ BindsBytes env store call event := by
  have hseq : (outline old).eventSeq = (outline event).eventSeq := congrArg _ h
  change old.eventSeq = event.eventSeq at hseq
  unfold BindsBytes
  rw [← credits_outline, h, credits_outline, hseq]

theorem credits_of_text (h : noteStorage op = .text) : Credits op length event ↔
    boundAs (admissionStorage op) event.eventType = .blob ∧ length < event.eventSeq := by
  cases op <;> cases h
  all_goals
    unfold Credits boundAs admissionStorage
    cases event.eventType <;> simp

variable {store : StoreState} {call : Call} {place : Nat} {event : EventRow}

/-- What one call does to the payload at a place of the log. -/
def Rebinds (env : Env) (store : StoreState) (call : Call) (place : Nat) (event : EventRow) : Prop :=
  event.storage = .blob ↔ BindsBytes env store call event ∨
    ∃ old, store.db.events[place]? = some old ∧ old.storage = .blob

theorem rebinds_of_same (h : (step env store call).2.db.events = store.db.events)
    (hevent : store.db.events[place]? = some event) : Rebinds env store call place event := by
  unfold Rebinds BindsBytes
  rw [h, hevent]
  simp

theorem rebinds_append (h : noteStorage call.op = .text)
    (hevent : (step env store call).2.db.events[place]? = some event)
    (hseq : event.eventSeq = place + 1) : Rebinds env store call place event := by
  have happends : Appends (admissionStorage call.op) store.db (step env store call).2.db :=
    appends_step h
  obtain ⟨new, hnew, hbound⟩ := happends
  have hlt := (List.getElem?_eq_some_iff.mp hevent).1
  unfold Rebinds BindsBytes
  rw [credits_of_text h]
  rcases lt_or_ge place store.db.events.length with hold | hnewer
  · rw [hnew, List.getElem?_append_left hold] at hevent
    have hwritten : ¬(store.db.events.length : Int) < event.eventSeq := by omega
    simp [hevent, hwritten]
  · rw [List.getElem?_eq_none hnewer]
    rw [hnew, List.getElem?_append_right hnewer] at hevent
    have hstorage := hbound event (List.mem_of_getElem? hevent)
    have hwritten : store.db.events.length < (step env store call).2.db.events.length ∧
        event.eventSeq ≤ (step env store call).2.db.events.length ∧
        (store.db.events.length : Int) < event.eventSeq := by omega
    simp [hstorage, hwritten]

theorem rebinds_redrive (hop : call.op = .redriveDeadLetter jobID key digest contextActor entropy)
    (hevent : (step env store call).2.db.events[place]? = some event)
    (hseq : event.eventSeq = place + 1) : Rebinds env store call place event := by
  have hlt := (List.getElem?_eq_some_iff.mp hevent).1
  rcases step_cases env store call with hsame | ⟨now, reply, _, _, hrun⟩
  · rw [hsame] at hevent
    exact rebinds_of_same (congrArg Database.events hsame) hevent
  rw [hop] at hrun
  obtain ⟨_, _, hrun⟩ := bind_pure_ok hrun
  rcases redriveDeadLetter_credits hrun with hsame | ⟨actor, new, hevents, hnew, hcredited⟩
  · rw [hsame] at hevent
    exact rebinds_of_same hsame hevent
  have hlength := congrArg List.length hevents
  rw [List.length_map, List.length_append] at hlength
  rw [hevents, List.getElem?_map, Option.map_eq_some_iff] at hevent
  obtain ⟨former, hformer, rfl⟩ := hevent
  have hsame : Credited jobID (newID entropy) (credit jobID (newID entropy) actor former) ↔
      Credited jobID (newID entropy) former := by
    obtain ⟨_, _, heq⟩ : Reworded former (credit jobID (newID entropy) actor former) :=
      reworded_credit
    rw [heq]
    rfl
  unfold Rebinds BindsBytes Credits
  rw [hop, storage_credit]
  dsimp only
  rw [hsame]
  have hcarried : store.db.events.length < (step env store call).2.db.events.length ∧
      (credit jobID (newID entropy) actor former).eventSeq ≤
        (step env store call).2.db.events.length := by omega
  rcases lt_or_ge place store.db.events.length with hold | hnewer
  · rw [List.getElem?_append_left hold] at hformer
    simp [hformer, hcarried]
  · rw [List.getElem?_append_right hnewer] at hformer
    simpa [List.getElem?_eq_none hnewer, hcarried] using
      hcredited former (List.mem_of_getElem? hformer)

theorem rebinds_step (hevent : (step env store call).2.db.events[place]? = some event)
    (hseq : event.eventSeq = place + 1) : Rebinds env store call place event := by
  cases hop : call.op
  case redriveDeadLetter => exact rebinds_redrive hop hevent hseq
  all_goals exact rebinds_append (by rw [hop]; rfl) hevent hseq

theorem outline_at (h : Continues db db') (hold : db.events[place]? = some old)
    (hevent : db'.events[place]? = some event) : outline old = outline event := by
  have hplace : (db.events.map outline)[place]? = some (outline old) := by
    rw [List.getElem?_map, hold]
    rfl
  obtain ⟨new, hnew⟩ := h
  have hlater : (db'.events.map outline)[place]? = some (outline old) := by
    rw [← hnew, List.getElem?_append_left (List.getElem?_eq_some_iff.mp hplace).1, hplace]
  rw [List.getElem?_map, hevent] at hlater
  exact (Option.some.inj hlater).symm

theorem numbered_runCalls (env : Env) (options : Options) (calls : List Call) :
    Numbered ((runCalls env (freshStore options) calls).db.events.map entry) := by
  rw [← run_calls]
  exact (sound_run env options _).chronicle.numbered

theorem continues_runCalls (env : Env) (store : StoreState) (calls : List Call) :
    Continues store.db (runCalls env store calls).db := by
  rw [← run_calls]
  exact continues_run env store _

/-- The payload of an event is bound as bytes if and only if some call has done so. -/
theorem storage_run (env : Env) (options : Options) (calls : List Call)
    (hevent : (runCalls env (freshStore options) calls).db.events[place]? = some event) :
    event.storage = .blob ↔ ∃ first call later, calls = first ++ call :: later ∧
      BindsBytes env (runCalls env (freshStore options) first) call event := by
  -- A call concerns the events that are in the log after it, so an event that the
  -- last call writes owes its storage class to none of the calls before.
  induction calls using List.reverseRecOn generalizing event with
  | nil => cases hevent
  | append_singleton calls call ih =>
    have hseq := eventSeq_at (numbered_runCalls env options _) hevent
    have hstep : runCalls env (freshStore options) (calls ++ [call]) =
        (step env (runCalls env (freshStore options) calls) call).2 := runCalls_append ..
    rw [hstep] at hevent
    rw [Library.exists_split_append_singleton (P := fun first call =>
      BindsBytes env (runCalls env (freshStore options) first) call event)]
    have hcontinues := continues_runCalls env (runCalls env (freshStore options) calls) [call]
    refine Iff.trans (rebinds_step hevent hseq) (or_congr_right ⟨?_, ?_⟩)
    · rintro ⟨old, hold, hblob⟩
      obtain ⟨first, writer, later, hsplit, hbinds⟩ := (ih hold).mp hblob
      exact ⟨first, writer, later, hsplit,
        (bindsBytes_outline (outline_at hcontinues hold hevent)).mp hbinds⟩
    · rintro ⟨first, writer, later, hsplit, hbinds⟩
      have hafter := continues_runCalls env
        (step env (runCalls env (freshStore options) first) writer).2 later
      have hlength := hafter.length_le
      rw [List.length_map, List.length_map] at hlength
      have hreached : runCalls env (freshStore options) calls = runCalls env
          (step env (runCalls env (freshStore options) first) writer).2 later := by
        rw [hsplit, runCalls_append]
        rfl
      have hlt : place < (runCalls env (freshStore options) calls).db.events.length := by
        have hseq' := hbinds.2.1
        rw [hreached]
        omega
      have hold := List.getElem?_eq_getElem hlt
      refine ⟨_, hold, (ih hold).mpr ⟨first, writer, later, hsplit, ?_⟩⟩
      exact (bindsBytes_outline (outline_at hcontinues hold hevent)).mpr hbinds

/-- The history of a job can be read if and only if every event that the query
fetches was written as bytes, by a submission or a redrive of the job API, or was
in the log when such a redrive of its job rewrote it. By `exists_calls` every reachable
state is that after some calls. -/
theorem history_readable_iff (env : Env) (options : Options) (calls : List Call) (id : String)
    (query : HistoryQuery) :
    let db := (runCalls env (freshStore options) calls).db
    (db.jobs.get? id).isSome = true →
      ((∃ page, jobHistory db id query = .ok page) ↔
        ∀ event ∈ fetched db id query, ∃ first call later, calls = first ++ call :: later ∧
          BindsBytes env (runCalls env (freshStore options) first) call event) := by
  intro db hjob
  have hstorage : ∀ event ∈ fetched db id query, event.storage = .blob ↔
      ∃ first call later, calls = first ++ call :: later ∧
        BindsBytes env (runCalls env (freshStore options) first) call event := by
    intro event hevent
    have hlogged := (mem_olderEvents.mp (List.mem_of_mem_take hevent)).1
    obtain ⟨place, hplace⟩ := List.mem_iff_getElem?.mp hlogged
    exact storage_run env options calls hplace
  rw [← forall₂_congr hstorage]
  simp only [jobHistory_ok_iff hjob, exists_and_left, exists_eq, and_true]

/-- A redrive rewrites the three events that its job then has. -/
theorem history_readable_redriven :
    ∃ submit giveUp, plainJob 1 [] = .call submit ∧ deadLetterPlain 1 = .call giveUp ∧
      let db := (runCalls lengthEnv (freshStore defaultOptions) [submit, giveUp, redrivePlain]).db
      (fetched db (newID (entropyOf 1)) ⟨100, 0, by decide⟩).length = 3 ∧
        ∃ page, jobHistory db (newID (entropyOf 1)) ⟨100, 0, by decide⟩ = .ok page := by
  refine ⟨_, _, rfl, rfl, by decide +kernel, (history_readable_iff lengthEnv defaultOptions _
    (newID (entropyOf 1)) ⟨100, 0, by decide⟩ (by decide +kernel)).mpr ?_⟩
  intro event hevent
  refine ⟨[_, _], redrivePlain, [], rfl, by decide +kernel, ?_, ?_⟩
  · revert event
    decide +kernel
  · exact .inl (mem_olderEvents.mp (List.mem_of_mem_take hevent)).2.1

/-- The lease of a job binds its payload as text, and the history ends there. -/
theorem history_unreadable :
    let db := (run plainEnv (freshStore defaultOptions) [plainJob 1 [], acquireTwo]).db
    (db.jobs.get? (newID (entropyOf 1))).isSome = true ∧
      ¬∃ page, jobHistory db (newID (entropyOf 1)) ⟨100, 0, by decide⟩ = .ok page := by
  refine ⟨by decide +kernel, ?_⟩
  intro ⟨page, hpage⟩
  have hnone : (jobHistory (run plainEnv (freshStore defaultOptions) [plainJob 1 [], acquireTwo]).db
      (newID (entropyOf 1)) ⟨100, 0, by decide⟩).toOption = none := by decide +kernel
  rw [hpage] at hnone
  cases hnone

end Writers

def glance (event : JobEvent) : JobEvent := { event with actor := "", payload := [] }

/-- Follow the pages from `before` on, the first one being request `request`;
`none` if the fuel did not reach the last page. -/
def readHistory (dbs : Nat → Database) (id : String) (limit : Nat) (limitPositive : 0 < limit) :
    Nat → Nat → Int → Except Error (Option (List JobEvent))
  | 0, _, _ => .ok none
  | fuel + 1, request, before => do
    let page ← jobHistory (dbs request) id ⟨limit, before, limitPositive⟩
    if page.nextBeforeSeq = 0 then return some page.events
    else do
      let rest ← readHistory dbs id limit limitPositive fuel (request + 1) page.nextBeforeSeq
      return rest.map (page.events ++ ·)

/-- Every page finds its rows readable: the requests from `request` on are for
`rest`, a page after the other, and each fetches one row more than it returns. -/
def Legible (dbs : Nat → Database) (limit request : Nat) (rest : List EventRow) : Prop :=
  ∀ turn, ∀ row ∈ (dbs (request + turn)).events,
    row.eventSeq ∈ ((rest.drop (turn * limit)).take (limit + 1)).map EventRow.eventSeq →
      row.storage = .blob

/-- Databases one after the other, as the requests of a reader find them. -/
structure Unfolds (dbs : Nat → Database) (id : String) : Prop where
  job : ∀ request, ((dbs request).jobs.get? id).isSome = true
  numbered : ∀ request, Numbered ((dbs request).events.map entry)
  continues : ∀ request, Continues (dbs 0) (dbs request)

section Walks

variable {dbs : Nat → Database} {id : String} {limit : Nat} {limitPositive : 0 < limit}
  {request fuel : Nat} {before : Int} {rest : List EventRow}

theorem legible_iff : Legible dbs limit request rest ↔ (∀ row ∈ (dbs request).events,
      row.eventSeq ∈ (rest.take (limit + 1)).map EventRow.eventSeq → row.storage = .blob) ∧
    Legible dbs limit (request + 1) (rest.drop limit) := by
  have hnext : ∀ turn, (rest.drop limit).drop (turn * limit) = rest.drop ((turn + 1) * limit) := by
    intro turn
    rw [List.drop_drop, Nat.succ_mul, Nat.add_comm]
  unfold Legible
  constructor
  · intro h
    refine ⟨by simpa using h 0, fun turn => ?_⟩
    rw [hnext, Nat.add_assoc, Nat.add_comm 1 turn]
    exact h (turn + 1)
  · intro ⟨hfirst, hrest⟩ turn
    cases turn with
    | zero => simpa using hfirst
    | succ turn =>
      have h := hrest turn
      rw [hnext, Nat.add_assoc, Nat.add_comm 1 turn] at h
      exact h

variable {query : HistoryQuery} {page : JobHistoryPage}

/-- What a query still has to return when it is made at a request: what it would
have returned at the first one. -/
structure Ahead (dbs : Nat → Database) (id : String) (query : HistoryQuery) (request : Nat)
    (rest : List EventRow) : Prop where
  first : olderEvents (dbs 0) id query.before = rest
  now : (olderEvents (dbs request) id query.before).map outline = rest.map outline

theorem exists_last_kept (hpositive : 0 < limit) (h : limit < rows.length) :
    ∃ front row back, rows = front ++ row :: back ∧ front.length + 1 = limit ∧ back ≠ [] := by
  obtain ⟨kept, rfl⟩ := Nat.exists_eq_add_of_lt hpositive
  rw [Nat.zero_add] at h ⊢
  refine ⟨rows.take kept, rows.get ⟨kept, by omega⟩, rows.drop (kept + 1), ?_, ?_, ?_⟩
  · rw [List.get_eq_getElem, ← List.drop_eq_getElem_cons, List.take_append_drop]
  · rw [List.length_take]
    omega
  · rw [Ne, List.drop_eq_nil_iff]
    omega

theorem pageOf_more (hfront : front.length + 1 = limit) (hback : back ≠ []) :
    pageOf limit (((front ++ row :: back).take (limit + 1)).map toJobEvent) =
      ⟨(front ++ [row]).map toJobEvent, row.eventSeq⟩ := by
  have hpositive := List.length_pos_iff.mpr hback
  have hlength : limit < (((front ++ row :: back).take (limit + 1)).map toJobEvent).length := by
    simp only [List.length_map, List.length_take, List.length_append, List.length_cons]
    omega
  have hkept : (((front ++ row :: back).take (limit + 1)).map toJobEvent).take limit =
      (front ++ [row]).map toJobEvent := by
    rw [← List.map_take, List.take_take, Nat.min_eq_left (by omega), ← hfront,
      List.take_length_add_append]
    rfl
  rw [pageOf, if_pos hlength, hkept]
  simp [toJobEvent]

theorem eventSeq_outline (rows : List EventRow) :
    (rows.map outline).map EventRow.eventSeq = rows.map EventRow.eventSeq := by
  rw [List.map_map]
  rfl

theorem glance_outline (rows : List EventRow) :
    (rows.map toJobEvent).map glance = (rows.map outline).map (glance ∘ toJobEvent) := by
  rw [List.map_map, List.map_map]
  rfl

theorem fetched_blob_iff (unfolds : Unfolds dbs id) (ahead : Ahead dbs id query request rest) :
    (∀ row ∈ fetched (dbs request) id query, row.storage = .blob) ↔
      ∀ row ∈ (dbs request).events,
        row.eventSeq ∈ (rest.take (query.limit + 1)).map EventRow.eventSeq →
          row.storage = .blob := by
  have hnumbers : (rest.take (query.limit + 1)).map EventRow.eventSeq =
      (fetched (dbs request) id query).map EventRow.eventSeq := by
    rw [← eventSeq_outline, ← eventSeq_outline (fetched _ _ _), List.map_take, ← ahead.now,
      fetched, List.map_take, List.map_take, List.map_take]
  have hmem : ∀ row ∈ fetched (dbs request) id query, row ∈ (dbs request).events := fun row hrow =>
    (mem_olderEvents.mp (List.mem_of_mem_take hrow)).1
  rw [hnumbers]
  constructor
  · intro h row hrow hnumber
    obtain ⟨other, hother, hsame⟩ := List.mem_map.mp hnumber
    rw [← eq_of_eventSeq (unfolds.numbered request) (hmem other hother) hrow hsame]
    exact h other hother
  · intro h row hrow
    exact h row (hmem row hrow) (List.mem_map.mpr ⟨row, hrow, rfl⟩)

theorem page_turns (unfolds : Unfolds dbs id) (ahead : Ahead dbs id query request rest)
    (h : jobHistory (dbs request) id query = .ok page) :
    page.events.map glance = (rest.take query.limit).map (glance ∘ toJobEvent) ∧
      (rest.length ≤ query.limit ∧ page.nextBeforeSeq = 0 ∨
        query.limit < rest.length ∧ page.nextBeforeSeq ≠ 0 ∧
          Ahead dbs id { query with beforeSeq := page.nextBeforeSeq } (request + 1)
            (rest.drop query.limit)) := by
  obtain ⟨_, rfl⟩ := (jobHistory_ok_iff (unfolds.job request)).mp h
  unfold fetched
  by_cases hlast : rest.length ≤ query.limit
  · have hlength : (olderEvents (dbs request) id query.before).length ≤ query.limit := by
      have hsame := congrArg List.length ahead.now
      simp only [List.length_map] at hsame
      omega
    rw [List.take_of_length_le (Nat.le_succ_of_le hlength), pageOf,
      if_neg (by simpa using hlength)]
    refine ⟨?_, .inl ⟨hlast, rfl⟩⟩
    rw [glance_outline, ahead.now, List.take_of_length_le hlast, List.map_map]
    rfl
  · rw [not_le] at hlast
    obtain ⟨front, row, back, rfl, hfront, hback⟩ := exists_last_kept query.limitPositive hlast
    obtain ⟨front', tail', hrows, hfront', htail⟩ := List.map_eq_append_iff.mp
      (ahead.now.trans List.map_append)
    obtain ⟨row', back', rfl, hrow', hback'⟩ := List.map_eq_cons_iff.mp htail
    have hseq : row'.eventSeq = row.eventSeq := by
      change (outline row').eventSeq = (outline row).eventSeq
      rw [hrow']
    have hlength : front'.length = front.length := by simpa using congrArg List.length hfront'
    have hnonempty : back' ≠ [] := by
      rintro rfl
      exact hback (List.map_eq_nil_iff.mp hback'.symm)
    obtain ⟨hpositive, hbound⟩ := eventSeq_bounds (unfolds.numbered 0)
      (mem_olderEvents.mp (show row ∈ olderEvents (dbs 0) id query.before by simp [ahead.first])).1
    rw [hrows, pageOf_more (by omega) hnonempty, hseq]
    have hkept : (front ++ row :: back).take query.limit = front ++ [row] := by
      rw [← hfront, List.take_length_add_append]
      rfl
    have hleft : (front ++ row :: back).drop query.limit = back := by
      rw [← hfront, List.drop_length_add_append]
      rfl
    have hcursor : HistoryQuery.before { query with beforeSeq := row.eventSeq } = row.eventSeq :=
      if_neg (by simpa using show row.eventSeq ≠ 0 by omega)
    have hafter := olderEvents_after (unfolds.numbered 0) ahead.first
    refine ⟨?_, .inr ⟨hlast, by dsimp only; omega, ?_, ?_⟩⟩
    · rw [hkept, glance_outline, List.map_append, List.map_append, hfront', List.map_singleton,
        List.map_singleton, hrow', List.map_append, List.map_map]
      rfl
    · rw [hcursor, hleft, hafter]
    · rw [hcursor, hleft, olderEvents_continues (unfolds.numbered 0) (unfolds.continues _)
        (unfolds.numbered _) (by omega), hafter]

theorem readHistory_succ : readHistory dbs id limit limitPositive (fuel + 1) request before =
    (jobHistory (dbs request) id ⟨limit, before, limitPositive⟩).bind fun page =>
      if page.nextBeforeSeq = 0 then .ok (some page.events)
      else (readHistory dbs id limit limitPositive fuel (request + 1) page.nextBeforeSeq).bind
        fun rest => .ok (rest.map (page.events ++ ·)) := rfl

theorem readHistory_ok (unfolds : Unfolds dbs id)
    (ahead : Ahead dbs id ⟨limit, before, limitPositive⟩ request rest)
    (h : readHistory dbs id limit limitPositive fuel request before = .ok (some events)) :
    events.map glance = rest.map (glance ∘ toJobEvent) ∧ Legible dbs limit request rest := by
  induction fuel generalizing request before rest events with
  | zero => cases h
  | succ fuel ih =>
    rw [readHistory_succ] at h
    obtain ⟨page, hpage, h⟩ := except_bind_ok h
    obtain ⟨hevents, hturn⟩ := page_turns unfolds ahead hpage
    have hblob := (fetched_blob_iff unfolds ahead).mp
      ((jobHistory_ok_iff (unfolds.job request)).mp hpage).1
    rw [legible_iff]
    rcases hturn with ⟨hlast, hnext⟩ | ⟨_, hnext, hahead⟩
    · rw [if_pos hnext] at h
      cases h
      rw [List.take_of_length_le hlast] at hevents
      refine ⟨hevents, hblob, ?_⟩
      rw [List.drop_of_length_le hlast]
      intro turn row _ hnumber
      simp at hnumber
    · rw [if_neg hnext] at h
      obtain ⟨others, hothers, h⟩ := except_bind_ok h
      cases others with
      | none => cases h
      | some others =>
        cases h
        obtain ⟨hrest, hlegible⟩ := ih hahead hothers
        refine ⟨?_, hblob, hlegible⟩
        rw [List.map_append, hevents, hrest, ← List.map_append, List.take_append_drop]

theorem readHistory_run (unfolds : Unfolds dbs id)
    (ahead : Ahead dbs id ⟨limit, before, limitPositive⟩ request rest)
    (legible : Legible dbs limit request rest) (hfuel : rest.length < fuel) :
    ∃ events, readHistory dbs id limit limitPositive fuel request before = .ok (some events) := by
  induction fuel generalizing request before rest with
  | zero => omega
  | succ fuel ih =>
    obtain ⟨hblob, hlegible⟩ := legible_iff.mp legible
    have hpage := (jobHistory_ok_iff (unfolds.job request)).mpr
      ⟨(fetched_blob_iff unfolds ahead).mpr hblob, rfl⟩
    obtain ⟨_, hturn⟩ := page_turns unfolds ahead hpage
    rw [readHistory_succ, hpage]
    dsimp only [Except.bind]
    rcases hturn with ⟨_, hnext⟩ | ⟨hmore, hnext, hahead⟩
    · rw [if_pos hnext]
      exact ⟨_, rfl⟩
    · dsimp only at hmore hahead
      have hshorter : (rest.drop limit).length < fuel := by
        rw [List.length_drop]
        omega
      obtain ⟨others, hothers⟩ := ih hahead hlegible hshorter
      rw [if_neg hnext, hothers]
      exact ⟨_, rfl⟩

end Walks

/-- The database as the request finds it that follows so much activity. -/
def found (env : Env) (store : StoreState) (between : Nat → List Activity) (request : Nat) :
    Database :=
  (run env store ((List.range request).flatMap between)).db

theorem unfolds_found (env : Env) (options : Options) (activities : List Activity)
    (between : Nat → List Activity) {id : String}
    (hjob : ((run env (freshStore options) activities).db.jobs.get? id).isSome = true) :
    Unfolds (found env (run env (freshStore options) activities) between) id where
  job request := by
    obtain ⟨row, hrow⟩ := Option.isSome_iff_exists.mp hjob
    obtain ⟨row', hrow', _⟩ :=
      (evolves_run env options activities ((List.range request).flatMap between)).jobs id row hrow
    rw [found, ← run_append]
    exact Option.isSome_iff_exists.mpr ⟨row', hrow'⟩
  numbered request := by
    rw [found, ← run_append]
    exact (sound_run env options _).chronicle.numbered
  continues request := continues_run env _ _

/-- A reader has seen all events of a job, each once, the newest first. -/
structure Complete (db : Database) (id : String) (events : List JobEvent) : Prop where
  all : events.map glance = (jobEvents db id).reverse.map (glance ∘ toJobEvent)
  descending : events.Pairwise fun first second => second.sequence < first.sequence

theorem descending_of_glance {rows : List EventRow} {events : List JobEvent}
    (h : events.map glance = rows.map (glance ∘ toJobEvent))
    (descending : rows.Pairwise fun first second => second.eventSeq < first.eventSeq) :
    events.Pairwise fun first second => second.sequence < first.sequence := by
  have hnumbers : events.map JobEvent.sequence = rows.map EventRow.eventSeq := by
    have hsame := congrArg (List.map JobEvent.sequence) h
    rw [List.map_map, List.map_map] at hsame
    exact hsame
  have hsorted : (rows.map EventRow.eventSeq).Pairwise fun first second => second < first :=
    List.pairwise_map.mpr descending
  rw [← hnumbers] at hsorted
  exact List.pairwise_map.mp hsorted

/-- Whatever happens between the requests, the pages give the events that the
job had at the first one, if and only if none of the rows that they fetch has a
payload that was bound as text and no event has the last number there is. -/
theorem history_complete_iff (env : Env) (options : Options) (activities : List Activity)
    (between : Nat → List Activity) (id : String) (limit : Nat) (limitPositive : 0 < limit) :
    let store := run env (freshStore options) activities
    (store.db.jobs.get? id).isSome = true →
      ((∃ fuel events, readHistory (found env store between) id limit limitPositive fuel 0 0 =
          .ok (some events) ∧ Complete store.db id events) ↔
        (∀ event ∈ jobEvents store.db id, event.eventSeq < maxInt64) ∧
          Legible (found env store between) limit 0 (jobEvents store.db id).reverse) := by
  intro store hjob
  have unfolds := unfolds_found env options activities between hjob
  have numbered : Numbered (store.db.events.map entry) := unfolds.numbered 0
  have ahead : Ahead (found env store between) id ⟨limit, 0, limitPositive⟩ 0
      (olderEvents store.db id maxInt64) := ⟨rfl, rfl⟩
  constructor
  · intro ⟨fuel, events, hread, complete⟩
    obtain ⟨hevents, hlegible⟩ := readHistory_ok unfolds ahead hread
    have hlength := congrArg List.length (hevents.symm.trans complete.all)
    rw [olderEvents_jobEvents numbered, List.length_map, List.length_map,
      List.length_filter_eq_length_iff] at hlength
    refine ⟨by simpa using hlength, ?_⟩
    rwa [olderEvents_jobEvents numbered, List.filter_eq_self.mpr hlength] at hlegible
  · intro ⟨hbelow, hlegible⟩
    have hall : olderEvents store.db id maxInt64 = (jobEvents store.db id).reverse := by
      rw [olderEvents_jobEvents numbered, List.filter_eq_self]
      simpa using hbelow
    rw [hall] at ahead
    obtain ⟨events, hread⟩ := readHistory_run unfolds ahead hlegible (Nat.lt_succ_self _)
    obtain ⟨hevents, _⟩ := readHistory_ok unfolds ahead hread
    refine ⟨_, events, hread, hevents, descending_of_glance hevents ?_⟩
    rw [← hall]
    exact olderEvents_descending numbered

/-- Three pages of one event each, for a dead letter that was redriven. -/
theorem history_complete_redriven :
    let activities := [plainJob 1 [], deadLetterPlain 1, .call redrivePlain]
    let store := run lengthEnv (freshStore defaultOptions) activities
    (jobEvents store.db (newID (entropyOf 1))).length = 3 ∧
      ∃ fuel events, readHistory (found lengthEnv store fun _ => []) (newID (entropyOf 1)) 1
        (by decide) fuel 0 0 = .ok (some events) ∧
          Complete store.db (newID (entropyOf 1)) events := by
  intro activities store
  have hlength : (jobEvents store.db (newID (entropyOf 1))).length = 3 := by decide +kernel
  refine ⟨hlength, ?_⟩
  refine (history_complete_iff lengthEnv defaultOptions activities (fun _ => [])
    (newID (entropyOf 1)) 1 (by decide) (by decide +kernel)).mpr ⟨by decide +kernel, ?_⟩
  have hblob : ∀ row ∈ store.db.events, row.storage = .blob := by decide +kernel
  intro turn row hrow _
  have hquiet : (List.range (0 + turn)).flatMap (fun _ => ([] : List Activity)) = [] := by simp
  unfold found at hrow
  rw [hquiet] at hrow
  exact hblob row hrow

/-- Once a job was leased, its pages cannot be followed to the end. -/
theorem history_incomplete :
    let store := run plainEnv (freshStore defaultOptions) [plainJob 1 [], acquireTwo]
    (store.db.jobs.get? (newID (entropyOf 1))).isSome = true ∧
      ¬∃ fuel events, readHistory (found plainEnv store fun _ => []) (newID (entropyOf 1)) 1
        (by decide) fuel 0 0 = .ok (some events) ∧
          Complete store.db (newID (entropyOf 1)) events := by
  refine ⟨by decide +kernel, ?_⟩
  intro ⟨fuel, events, hread, _⟩
  cases fuel with
  | zero => cases hread
  | succ fuel =>
    obtain ⟨page, hpage, _⟩ := except_bind_ok (readHistory_succ.symm.trans hread)
    have hnone : (jobHistory (found plainEnv (run plainEnv (freshStore defaultOptions)
        [plainJob 1 [], acquireTwo]) (fun _ => []) 0) (newID (entropyOf 1))
          ⟨1, 0, by decide⟩).toOption = none := by decide +kernel
    rw [hpage] at hnone
    cases hnone

end RailYard.Properties
