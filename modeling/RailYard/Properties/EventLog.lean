import RailYard.Oracle.View
import RailYard.Properties.Reserve

/-! The histories that the store writes, under the rules of the oracle. -/
namespace RailYard.Properties
open Domain Store
open Refinement Lifecycle

def loggedEvents (db : Database) (id : String) : List EventRow :=
  db.events.filter fun event => event.jobID = id

/-- What the oracle does not expect after an event of the same job: the note of
a later retry or redrive, the release of a job that is pending anyway, and the
failure of a job that waits for its retry. -/
def Unexpected (previous event : EventRow) : Prop :=
  isNote event.eventType = true ∨
    event.eventType = .operator "release" ∧ previous.state = .pending ∧ event.state = .pending ∨
    previous.state = .retrying ∧ event.state = .failed

section Links

variable {db : Database} {id : String}

theorem entriesOf_history : entriesOf id (yardOf db).history = (loggedEvents db id).map entry := by
  change (db.events.map entry).filter _ = _
  rw [List.filter_map]
  rfl

theorem eventsOf_eventRows :
    Oracle.eventsOf (Oracle.eventRows db) id = (loggedEvents db id).map Oracle.scanEvent := by
  rw [Oracle.eventsOf, Oracle.eventRows, List.filter_map]
  rfl

theorem terminalState_stateText (state : JobState) :
    Oracle.terminalState (stateText state) = state.terminal := by
  cases state <;> decide

theorem allowed_iff (hlink : Linked edgePolicy id (entry previous) (entry event))
    (hfollows : Follows (entry previous) (entry event)) :
    Oracle.allowedTransition (stateText previous.state) (stateText event.state)
      (Oracle.eventText event.eventType) = true ↔ ¬Unexpected previous event := by
  by_cases hnote : isNote event.eventType = true
  · have hterminal : previous.state.terminal = true := hfollows.ended hnote
    unfold Oracle.allowedTransition
    rw [terminalState_stateText, hterminal]
    simp [Unexpected, hnote]
  · obtain ⟨cause, hedge⟩ := hlink.resolve_left hnote
    obtain ⟨eventSeq, jobID, eventType, state, stateVersion, occurredAt, payload, storage⟩ := event
    obtain ⟨_, _, _, before, _, _, _, _⟩ := previous
    dsimp only [entry] at hedge hnote ⊢
    simp only [Unexpected, hnote]
    cases hedge with
    | leased | started | activated => decide
    | completed _ leased ended =>
      cases before <;> cases state <;> first | (cases leased; done) | (cases ended; done) | decide
    | retried _ leased | requeued _ leased | expired _ leased =>
      cases before <;> first | (cases leased; done) | decide
    | promoted _ idle => rcases idle with rfl | rfl <;> decide
    | controlled _ action alive target =>
      rcases target with ⟨rfl, rfl⟩ | hfailed
      · cases before <;> first | (cases alive; done) | decide
      · cases before <;> first | (cases alive; done) | cases state <;>
          first | (cases hfailed; done) | simp [Oracle.allowedTransition, stateText,
            Oracle.terminalState]
    | cascaded _ _ alive =>
      cases before <;> first | (cases alive; done) | decide

end Links

section Logs

variable {db : Database} {id : String} {row : JobRow}

theorem versions_of_expected {events : List EventRow}
    (hfirst : ∀ event, events[0]? = some event → event.stateVersion = 1)
    (hfollows : events.IsChain fun previous event => Follows (entry previous) (entry event))
    (hexpected : events.IsChain fun previous event => ¬Unexpected previous event) :
    ∀ (place : Nat) (event : EventRow), events[place]? = some event →
      event.stateVersion = place + 1 := by
  intro place
  induction place with
  | zero => exact hfirst
  | succ place ih =>
    intro event hevent
    have hlt := (List.getElem?_eq_some_iff.mp hevent).1
    have hprevious := List.getElem?_eq_getElem (Nat.lt_of_succ_lt hlt)
    have hversion := ih _ hprevious
    have hnote : ¬isNote event.eventType = true := fun hnote =>
      Oracle.isChain_iff_places.mp hexpected place _ event hprevious hevent (.inl hnote)
    have hnext : event.stateVersion = events[place].stateVersion + 1 :=
      (Oracle.isChain_iff_places.mp hfollows place _ event hprevious hevent).version hnote
    rw [hnext, hversion]
    push_cast
    rfl

theorem logSound_iff (hlabelled : (entriesOf id (yardOf db).history).IsChain (Linked edgePolicy id))
    (htimeline : Timeline (entriesOf id (yardOf db).history) row.state row.stateVersion) :
    Oracle.LogSound (Oracle.scanJob id row) ((loggedEvents db id).map Oracle.scanEvent) ↔
      (loggedEvents db id).IsChain fun previous event => ¬Unexpected previous event := by
  rw [entriesOf_history] at hlabelled htimeline
  have hlinks := hlabelled
  rw [List.isChain_map] at hlinks
  have hfollows := htimeline.chain
  rw [List.isChain_map] at hfollows
  have hallowed : ((loggedEvents db id).map Oracle.scanEvent).IsChain (fun before event =>
        Oracle.allowedTransition before.state event.state event.type = true) ↔
      (loggedEvents db id).IsChain fun previous event => ¬Unexpected previous event := by
    rw [List.isChain_map, Oracle.isChain_iff_places, Oracle.isChain_iff_places]
    refine forall_congr' fun place => forall_congr' fun previous => forall_congr' fun event =>
      forall_congr' fun hprevious => forall_congr' fun hevent => ?_
    exact allowed_iff (Oracle.isChain_iff_places.mp hlinks place previous event hprevious hevent)
      (Oracle.isChain_iff_places.mp hfollows place previous event hprevious hevent)
  refine ⟨fun h => hallowed.mp h.allowed, fun hexpected => ?_⟩
  obtain ⟨first, rest, hentries, htype, hversion, hrest⟩ := htimeline.admission
  obtain ⟨admitted, events, hevents, rfl, rfl⟩ := List.map_eq_cons_iff.mp hentries
  obtain ⟨last, hlast, hstate, hstateVersion⟩ := htimeline.last
  refine ⟨?_, ?_, hallowed.mpr hexpected, ?_, ?_⟩
  · intro place event hevent
    rw [List.getElem?_map, Option.map_eq_some_iff] at hevent
    obtain ⟨found, hfound, rfl⟩ := hevent
    refine versions_of_expected ?_ hfollows hexpected place found hfound
    intro event hevent
    rw [hevents, List.getElem?_cons_zero, Option.some.injEq] at hevent
    rw [← hevent]
    exact hversion
  · intro event hevent
    rw [hevents, List.map_cons, List.getElem?_cons_zero, Option.some.injEq] at hevent
    rw [← hevent]
    exact Oracle.eventText_admitted.mpr htype
  · have hothers : ((events.map Oracle.scanEvent).filter fun event =>
        event.type = "job_admitted") = [] := by
      rw [List.filter_eq_nil_iff]
      intro event hevent hadmitted
      obtain ⟨found, hfound, rfl⟩ := List.mem_map.mp hevent
      exact hrest (entry found) (List.mem_map_of_mem hfound)
        (Oracle.eventText_admitted.mp (of_decide_eq_true hadmitted))
    rw [hevents, List.map_cons, List.filter_cons_of_pos, hothers]
    · rfl
    · exact decide_eq_true (Oracle.eventText_admitted.mpr htype)
  · intro found hfound
    rw [List.getLast?_map, Option.map_eq_some_iff] at hfound hlast
    obtain ⟨event, hevent, rfl⟩ := hfound
    obtain ⟨event', hevent', rfl⟩ := hlast
    rw [hevent, Option.some.injEq] at hevent'
    subst hevent'
    exact ⟨congrArg stateText hstate, hstateVersion⟩

end Logs

/-- On a reachable state the oracle's pass over the events is silent exactly if
every event has a time after the epoch and none is unexpected after the one
before it of the same job. -/
theorem analyzeEvents_silent_iff (env : Env) (options : Options) (activities : List Activity) :
    let db := (run env (freshStore options) activities).db
    (Oracle.analyzeEvents (Oracle.eventRows db) (Oracle.scannedJobs db)).found = [] ↔
      (∀ event ∈ db.events, 0 < event.occurredAt) ∧
        ∀ id, (loggedEvents db id).IsChain fun previous event => ¬Unexpected previous event := by
  intro db
  have hchronicle : Chronicle (yardOf db) := (sound_run env options activities).chronicle
  have hlabelled : Labelled edgePolicy (yardOf db) := labelled_run env options activities
  rw [show (Oracle.analyzeEvents _ _).found = [] ↔ _ from Oracle.silent_analyzeEvents]
  constructor
  · intro h
    refine ⟨?_, fun id => ?_⟩
    · intro event hevent
      exact h.timed (Oracle.scanEvent event) (List.mem_map_of_mem hevent)
    · cases hrow : db.jobs.get? id with
      | none =>
        have hnone := hchronicle.absent id hrow
        rw [entriesOf_history, List.map_eq_nil_iff] at hnone
        rw [hnone]
        exact List.IsChain.nil
      | some row =>
        have hlog := (h.logged id (Oracle.scanJob id row)
          (by rw [Oracle.get?_scannedJobs, hrow]; rfl)).2
        rw [eventsOf_eventRows] at hlog
        exact (logSound_iff (hlabelled id) (hchronicle.timeline id row hrow)).mp hlog
  · rintro ⟨htimed, hexpected⟩
    refine ⟨?_, ?_, ?_, ?_, ?_⟩
    · intro place event hevent
      rw [Oracle.eventRows, List.getElem?_map, Option.map_eq_some_iff] at hevent
      obtain ⟨found, hfound, rfl⟩ := hevent
      have hentry : (yardOf db).history[place]? = some (entry found) := by
        change (db.events.map entry)[place]? = _
        rw [List.getElem?_map, hfound]
        rfl
      exact hchronicle.numbered.place hentry
    · intro event hevent
      obtain ⟨found, hfound, rfl⟩ := List.mem_map.mp hevent
      exact htimed found hfound
    · intro event hevent
      obtain ⟨found, _, rfl⟩ := List.mem_map.mp hevent
      exact Oracle.valid_eventJson found.payload
    · intro event hevent
      obtain ⟨found, hfound, rfl⟩ := List.mem_map.mp hevent
      rw [Oracle.get?_scannedJobs, Option.isSome_map, Option.isSome_iff_ne_none]
      exact hchronicle.owned (List.mem_map_of_mem hfound)
    · intro id job hjob
      rw [Oracle.get?_scannedJobs, Option.map_eq_some_iff] at hjob
      obtain ⟨row, hrow, rfl⟩ := hjob
      have htimeline := hchronicle.timeline id row hrow
      rw [eventsOf_eventRows]
      refine ⟨?_, (logSound_iff (hlabelled id) htimeline).mpr (hexpected id)⟩
      obtain ⟨first, rest, hentries, _⟩ := htimeline.admission
      rw [entriesOf_history] at hentries
      intro hnil
      rw [List.map_eq_nil_iff] at hnil
      rw [hnil] at hentries
      cases hentries

/-- The oracle objects to an operator's release of a job that waits in its queue. -/
theorem analyzeEvents_released :
    let db := (run lengthEnv (freshStore defaultOptions) [plainJob 1 [], forceRelease 1]).db
    (Oracle.analyzeEvents (Oracle.eventRows db) (Oracle.scannedJobs db)).found =
      [⟨"event_log", newID (entropyOf 1),
        "invalid transition PENDING to PENDING for operator_release"⟩] := by
  decide +kernel

end RailYard.Properties
