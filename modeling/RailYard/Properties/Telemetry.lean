import RailYard.Store.Telemetry
import RailYard.Refinement.Histories
import RailYard.Refinement.Stamps
import RailYard.Properties.EventLog
import RailYard.Properties.DeadLetters

/-! The end-to-end timings of the telemetry. The event that ends a job has the time
of its completion; a note on the finished job may have it too. -/
namespace RailYard.Properties
open Domain Store
open Refinement Lifecycle

def EndsJob (id : String) (event : EventRow) : Prop :=
  event.jobID = id ∧ isNote event.eventType = false ∧ event.state.terminal = true

theorem alive_of_edge {id : String} (h : Edge cause id eventType state next) :
    state.terminal = false := by
  cases h with
  | leased | started | activated => rfl
  | completed _ leased | retried _ leased | requeued _ leased | expired _ leased =>
    cases state <;> first | rfl | cases leased
  | promoted _ idle => rcases idle with rfl | rfl <;> rfl
  | controlled _ _ alive => exact alive
  | cascaded _ _ alive => exact alive

section Ends

variable {id : String} (sound : Sound (yardOf db)) (labelled : Labelled edgePolicy (yardOf db))

include sound in
theorem terminal_before_note (hrow : db.jobs.get? id = some row) {place : Nat}
    (hplace : place < (loggedEvents db id).length)
    (hnote : isNote (loggedEvents db id)[place].eventType = true) :
    ∃ before, before < place ∧ ∀ h : before < (loggedEvents db id).length,
      (loggedEvents db id)[before].state.terminal = true ∧
        (loggedEvents db id)[place].state = (loggedEvents db id)[before].state := by
  have timeline := sound.chronicle.timeline id row hrow
  rw [entriesOf_history] at timeline
  cases place with
  | zero =>
    obtain ⟨first, rest, heq, hadmitted, _⟩ := timeline.admission
    have hfirst := congrArg List.head? heq
    rw [List.head?_map, List.head?_eq_getElem?, List.getElem?_eq_getElem hplace] at hfirst
    cases hfirst
    dsimp only [entry] at hadmitted
    rw [hadmitted] at hnote
    cases hnote
  | succ before =>
    have hfollow :=
      List.isChain_iff_getElem.mp ((List.isChain_map _).mp timeline.chain) before hplace
    simp only [Follows, entry, hnote, if_true] at hfollow
    exact ⟨before, Nat.lt_succ_self _, fun _ => ⟨hfollow.1, hfollow.2.1⟩⟩

include sound labelled in
theorem notes_after (hrow : db.jobs.get? id = some row) :
    (loggedEvents db id).Pairwise fun earlier later => earlier.state.terminal = true →
      isNote later.eventType = true ∧ later.state.terminal = true := by
  have hlinked := labelled id
  have hfollows := (sound.chronicle.timeline id row hrow).chain
  rw [entriesOf_history, List.isChain_map, List.isChain_iff_getElem] at hlinked hfollows
  have htrans : IsTrans EventRow fun earlier later => earlier.state.terminal = true →
      isNote later.eventType = true ∧ later.state.terminal = true :=
    ⟨fun _ _ _ hab hbc hterminal => hbc (hab hterminal).2⟩
  refine List.IsChain.pairwise (List.isChain_iff_getElem.mpr fun place hplace hterminal => ?_)
  have hfollow := hfollows place hplace
  rcases hlinked place hplace with hnote | ⟨cause, hedge⟩
  · dsimp only [entry] at hnote
    simp only [Follows, entry, hnote, if_true] at hfollow
    exact ⟨hnote, hfollow.2.1 ▸ hterminal⟩
  · cases hterminal.symm.trans (alive_of_edge hedge)

include sound labelled in
theorem terminal_of_event (hrow : db.jobs.get? id = some row) (hevent : event ∈ loggedEvents db id)
    (hterminal : event.state.terminal = true) : row.state.terminal = true := by
  obtain ⟨last, hlast, hstate, _⟩ := (sound.chronicle.timeline id row hrow).last
  rw [entriesOf_history, List.getLast?_map] at hlast
  obtain ⟨final, hfinal, rfl⟩ := Option.map_eq_some_iff.mp hlast
  obtain ⟨earlier, heq⟩ := List.getLast?_eq_some_iff.mp hfinal
  have hpairs := notes_after sound labelled hrow
  rw [heq, List.pairwise_append] at hpairs
  rw [heq, List.mem_append, List.mem_singleton] at hevent
  rw [← show final.state = row.state from hstate]
  rcases hevent with hbefore | rfl
  · exact (hpairs.2.2 event hbefore final (List.mem_singleton_self _) hterminal).2
  · exact hterminal

include sound in
theorem exists_ends (hrow : db.jobs.get? id = some row) (hended : row.state.terminal = true) :
    ∃ made ∈ db.events, EndsJob id made := by
  obtain ⟨last, hlast, hstate, _⟩ := (sound.chronicle.timeline id row hrow).last
  rw [entriesOf_history, List.getLast?_map] at hlast
  obtain ⟨final, hfinal, rfl⟩ := Option.map_eq_some_iff.mp hlast
  have hexists : ∃ place, ∃ h : place < (loggedEvents db id).length,
      (loggedEvents db id)[place].state.terminal = true := by
    obtain ⟨place, hplace, rfl⟩ := List.mem_iff_getElem.mp (List.mem_of_getLast? hfinal)
    exact ⟨place, hplace, (congrArg JobState.terminal hstate).trans hended⟩
  classical
  -- the first terminal event of the job is not a note
  obtain ⟨hplace, hterminal⟩ := Nat.find_spec hexists
  have hmem := List.mem_filter.mp (List.getElem_mem hplace)
  refine ⟨_, hmem.1, of_decide_eq_true hmem.2, ?_, hterminal⟩
  by_contra hnote
  obtain ⟨before, hless, hbefore⟩ := terminal_before_note sound hrow hplace (by simpa using hnote)
  exact Nat.find_min hexists hless ⟨by omega, (hbefore (by omega)).1⟩

include sound labelled in
theorem terminal_iff_of_ends (hrow : db.jobs.get? id = some row) (hmade : made ∈ db.events)
    (ends : EndsJob id made) (hevent : event ∈ db.events) (hjob : event.jobID = id) :
    event.state.terminal = true ↔ event = made ∨ isNote event.eventType = true := by
  have hlogged : ∀ found ∈ db.events, found.jobID = id → ∃ place,
      ∃ h : place < (loggedEvents db id).length, (loggedEvents db id)[place] = found := by
    intro found hfound hof
    exact List.mem_iff_getElem.mp (List.mem_filter.mpr ⟨hfound, decide_eq_true hof⟩)
  obtain ⟨place, hplace, rfl⟩ := hlogged event hevent hjob
  obtain ⟨place', hplace', rfl⟩ := hlogged made hmade ends.1
  constructor
  · intro hterminal
    have hpairs := List.pairwise_iff_getElem.mp (notes_after sound labelled hrow)
    rcases lt_trichotomy place place' with hless | rfl | hmore
    · cases ends.2.1.symm.trans (hpairs place place' hplace hplace' hless hterminal).1
    · exact .inl rfl
    · exact .inr (hpairs place' place hplace' hplace hmore ends.2.2).1
  · rintro (heq | hnote)
    · rw [heq]
      exact ends.2.2
    · obtain ⟨before, hless, hbefore⟩ := terminal_before_note sound hrow hplace hnote
      obtain ⟨hterminal, hstate⟩ := hbefore (by omega)
      rw [hstate]
      exact hterminal

end Ends

def CompletionsTimed (db : Database) : Prop :=
  ∀ id completion, db.jobCompletions.get? id = some completion →
    ∃ made ∈ db.events, EndsJob id made ∧ made.occurredAt = completion.committedAt

theorem mem_events_of_step (stamps : Stamps now db db') (continues : Continues db db')
    (hevent : event ∈ db'.events) :
    (∃ old ∈ db.events, outline event = outline old) ∨ event.occurredAt = timeToDB now := by
  obtain ⟨place, hplace, rfl⟩ := List.mem_iff_getElem.mp hevent
  by_cases hold : place < db.events.length
  · refine .inl ⟨db.events[place], List.getElem_mem _, ?_⟩
    have hsame := continues.getElem (i := place) (by simpa using hold)
    simpa using hsame.symm
  · obtain ⟨count, hoccurred⟩ := stamps.occurred
    change List.map EventRow.occurredAt _ = List.map EventRow.occurredAt _ ++ _ at hoccurred
    have hmem : db'.events[place].occurredAt ∈ List.replicate count (timeToDB now) := by
      have hget : (db'.events.map EventRow.occurredAt)[place]? = some db'.events[place].occurredAt := by
        simp [hplace]
      rw [hoccurred, List.getElem?_append_right (by simpa using hold)] at hget
      exact List.mem_of_getElem? hget
    exact .inr (List.eq_of_mem_replicate hmem)

theorem CompletionsTimed.step (h : CompletionsTimed db) (sound : Sound (yardOf db))
    (labelled : Labelled edgePolicy (yardOf db)) (sound' : Sound (yardOf db'))
    (evolves : Evolves (yardOf db) (yardOf db'))
    (stamps : Stamps now db db') (continues : Continues db db') : CompletionsTimed db' := by
  intro id completion hcompletion
  cases hbefore : db.jobCompletions.get? id with
  | some old =>
    have hkept : db'.jobCompletions.get? id = some old := evolves.completions id old hbefore
    rw [hcompletion, Option.some.injEq] at hkept
    subst hkept
    obtain ⟨made, hmem, hmade⟩ := h id completion hbefore
    obtain ⟨made', hmem', hsame⟩ :=
      List.mem_map.mp (continues.subset (List.mem_map_of_mem (f := outline) hmem))
    change EndsJob id (outline made) ∧ (outline made).occurredAt = _ at hmade
    rw [← hsame] at hmade
    exact ⟨made', hmem', hmade⟩
  | none =>
    -- the job has ended in this very call
    have hcommitted : completion.committedAt = timeToDB now := by
      rcases stamps.completions id completion hcompletion with hold | hnow
      · cases hbefore.symm.trans hold
      · exact hnow
    rw [hcommitted]
    cases hrow' : db'.jobs.get? id with
    | none => cases hcompletion.symm.trans (sound'.ledger.absent id hrow').1
    | some row' =>
      have hended : row'.state.terminal = true := by
        by_contra halive
        cases hcompletion.symm.trans
          ((sound'.ledger.accounted id row' hrow').unsettled (by simpa using halive))
      obtain ⟨made, hmem, hmade⟩ := exists_ends sound' hrow' hended
      refine ⟨made, hmem, hmade, (mem_events_of_step stamps continues hmem).resolve_left ?_⟩
      rintro ⟨old, hold, hsame⟩
      change EndsJob id (outline made) at hmade
      rw [hsame] at hmade
      cases hrow : db.jobs.get? id with
      | none =>
        have howned := sound.chronicle.owned (List.mem_map_of_mem (f := entry) hold)
        exact howned ((congrArg db.jobs.get? hmade.1).trans hrow)
      | some row =>
        have hover := terminal_of_event sound labelled hrow
          (List.mem_filter.mpr ⟨hold, decide_eq_true hmade.1⟩) hmade.2.2
        obtain ⟨_, hsettled, _⟩ := (sound.ledger.accounted id row hrow).settled hover
        cases hbefore.symm.trans hsettled

theorem completionsTimed_run (env : Env) (options : Options) (activities : List Activity) :
    CompletionsTimed (run env (freshStore options) activities).db := by
  obtain ⟨calls, hcalls⟩ := exists_calls env (freshStore options) activities
  rw [hcalls, ← run_calls]
  clear hcalls
  induction calls using List.reverseRecOn with
  | nil => exact fun _ _ hcompletion => nomatch hcompletion
  | append_singleton calls call ih =>
    have continues := continues_run env (run env (freshStore options) (calls.map .call)) [.call call]
    obtain ⟨now, _, _, stamps, _⟩ :=
      step_stamps env (run env (freshStore options) (calls.map .call)) call
    rw [List.map_append]
    have evolves := evolves_run env options (calls.map .call) [.call call]
    rw [run_append] at evolves ⊢
    have sound' := sound_run env options (calls.map .call ++ [.call call])
    rw [run_append] at sound'
    exact ih.step (sound_run ..) (labelled_run _ _ _) sound' evolves stamps continues

def Measured (db : Database) (event : EventRow) : Prop :=
  ∃ timing ∈ telemetryEvents db 0 db.events.length,
    timing.sequence = event.eventSeq ∧ timing.endToEnd.isSome = true

theorem measured_iff (sound : Sound (yardOf db)) (hevent : event ∈ db.events)
    (hrow : db.jobs.get? event.jobID = some row) :
    Measured db event ↔ event.state.terminal = true ∧ ∃ completion,
      db.jobCompletions.get? event.jobID = some completion ∧
      event.occurredAt = completion.committedAt ∧ row.createdAt ≤ completion.committedAt := by
  have hplaced : ∀ (place : Nat) (found : EventRow), db.events[place]? = some found →
      found.eventSeq = place + 1 := by
    intro place found hfound
    have hentry : (db.events.map entry)[place]? = some (entry found) := by
      rw [List.getElem?_map, hfound]
      rfl
    exact sound.chronicle.numbered.place hentry
  have hcarries : (timingEvent db event row).endToEnd.isSome = true ↔
      event.state.terminal = true ∧ ∃ completion,
        db.jobCompletions.get? event.jobID = some completion ∧
        event.occurredAt = completion.committedAt ∧ row.createdAt ≤ completion.committedAt := by
    unfold timingEvent completionAt
    cases hcompletion : db.jobCompletions.get? event.jobID with
    | none => simp
    | some completion =>
      by_cases htime : completion.committedAt = event.occurredAt
      · cases event.state.terminal <;> simp [htime, durationBetween, Option.filter]
      · cases event.state.terminal <;> simp [htime, Ne.symm htime, Option.filter]
  rw [← hcarries]
  constructor
  · rintro ⟨timing, htiming, hsequence, hsome⟩
    obtain ⟨found, hfound, heq⟩ := List.mem_filterMap.mp (List.mem_of_mem_take htiming)
    obtain ⟨job, hjob, rfl⟩ := Option.map_eq_some_iff.mp heq
    obtain ⟨place, hplace⟩ := List.mem_iff_getElem?.mp hevent
    obtain ⟨place', hplace'⟩ := List.mem_iff_getElem?.mp (List.mem_of_mem_filter hfound)
    have hsequence' : found.eventSeq = event.eventSeq := hsequence
    rw [hplaced place event hplace, hplaced place' found hplace'] at hsequence'
    obtain rfl : place' = place := by omega
    rw [hplace, Option.some.injEq] at hplace'
    subst hplace'
    rw [hrow, Option.some.injEq] at hjob
    rwa [hjob]
  · intro hsome
    refine ⟨timingEvent db event row, ?_, rfl, hsome⟩
    unfold telemetryEvents
    rw [List.take_of_length_le]
    · refine List.mem_filterMap.mpr ⟨event, List.mem_filter.mpr ⟨hevent, ?_⟩, by rw [hrow]; rfl⟩
      obtain ⟨place, hplace⟩ := List.mem_iff_getElem?.mp hevent
      rw [hplaced place event hplace, decide_eq_true_eq]
      omega
    · refine (List.length_filterMap_le ..).trans ((List.length_filter_le ..).trans ?_)
      simp

/-- The end-to-end durations of a job: the event that ended it carries one, and it is
the only one exactly if no redrive or retry was noted at the time of the completion. -/
theorem end_to_end_once_iff (env : Env) (options : Options) (activities : List Activity)
    (id : String) (row : JobRow) (completion : CompletionRow) :
    let db := (run env (freshStore options) activities).db
    db.jobs.get? id = some row → row.state.terminal = true →
    db.jobCompletions.get? id = some completion → row.createdAt ≤ completion.committedAt →
    ∃ made ∈ db.events, EndsJob id made ∧ Measured db made ∧
      ((∀ event ∈ db.events, event.jobID = id → Measured db event → event = made) ↔
        ∀ event ∈ db.events, event.jobID = id → isNote event.eventType = true →
          event.occurredAt ≠ completion.committedAt) := by
  intro db hrow hended hcompletion hcreated
  have sound : Sound (yardOf db) := sound_run env options activities
  obtain ⟨made, hmem, hmade, htime⟩ :=
    completionsTimed_run env options activities id completion hcompletion
  have hmeasured : ∀ event ∈ db.events, event.jobID = id → (Measured db event ↔
      (event = made ∨ isNote event.eventType = true) ∧
        event.occurredAt = completion.committedAt) := by
    intro event hevent hof
    rw [measured_iff sound hevent (hof ▸ hrow), hof, hcompletion,
      terminal_iff_of_ends sound (labelled_run env options activities) hrow hmem hmade hevent hof]
    simp [hcreated]
  refine ⟨made, hmem, hmade, (hmeasured made hmem hmade.1).mpr ⟨.inl rfl, htime⟩, ?_, ?_⟩
  · intro honly event hevent hof hnote heq
    have hsame := honly event hevent hof ((hmeasured event hevent hof).mpr ⟨.inr hnote, heq⟩)
    rw [hsame, hmade.2.1] at hnote
    cases hnote
  · intro hlater event hevent hof hcarries
    obtain ⟨hcase, heq⟩ := (hmeasured event hevent hof).mp hcarries
    exact hcase.resolve_right fun hnote => hlater event hevent hof hnote heq

/-- A job that is given up and redriven later has one duration. -/
theorem end_to_end_once_redriven :
    let db := (run lengthEnv (freshStore defaultOptions) [plainJob 1 [], deadLetterPlain 1,
      .call ⟨redriveControlPlain.op, ⟨2, 0⟩⟩]).db
    ∃ made ∈ db.events, EndsJob (newID (entropyOf 1)) made ∧
      ∀ event ∈ db.events, event.jobID = newID (entropyOf 1) → Measured db event →
        event = made := by
  generalize hactivities : [plainJob 1 [], deadLetterPlain 1,
    .call ⟨redriveControlPlain.op, ⟨2, 0⟩⟩] = activities
  generalize hdb : (run lengthEnv (freshStore defaultOptions) activities).db = db
  have hjob : (db.jobs.get? (newID (entropyOf 1))).map
      (fun row => (row.state.terminal, row.createdAt)) = some (true, 1) := by
    subst hdb hactivities
    decide +kernel
  have hcompletion : (db.jobCompletions.get? (newID (entropyOf 1))).map
      CompletionRow.committedAt = some 1 := by
    subst hdb hactivities
    decide +kernel
  have hnotes : ∀ event ∈ db.events, isNote event.eventType = true → event.occurredAt ≠ 1 := by
    subst hdb hactivities
    decide +kernel
  obtain ⟨row, hrow, hstate⟩ := Option.map_eq_some_iff.mp hjob
  obtain ⟨completion, hfound, htime⟩ := Option.map_eq_some_iff.mp hcompletion
  obtain ⟨hended, hcreated⟩ := Prod.mk.inj hstate
  subst hdb
  obtain ⟨made, hmem, hmade, _, honce⟩ := end_to_end_once_iff lengthEnv defaultOptions activities
    (newID (entropyOf 1)) row completion hrow hended hfound (by rw [hcreated, htime])
  refine ⟨made, hmem, hmade, honce.mpr fun event hevent _ hnote => ?_⟩
  rw [htime]
  exact hnotes event hevent hnote

/-- A redrive at the very time of the completion carries a second one. -/
theorem end_to_end_twice :
    let db := (run lengthEnv (freshStore defaultOptions) [plainJob 1 [], deadLetterPlain 1,
      .call redriveControlPlain]).db
    (db.jobs.get? (newID (entropyOf 1))).map (fun row => (row.state.terminal, row.createdAt)) =
        some (true, 1) ∧
      (db.jobCompletions.get? (newID (entropyOf 1))).map CompletionRow.committedAt = some 1 ∧
      (db.events.filter fun event => event.jobID = newID (entropyOf 1) ∧
        event.eventSeq ∈ ((telemetryEvents db 0 db.events.length).filter
          (·.endToEnd.isSome)).map TimingEvent.sequence).length = 2 := by
  decide +kernel

end RailYard.Properties
