import RailYard.Lifecycle.Evolution
import Mathlib.Data.List.Chain

/-! The history of each job: it opens with the admission, every move adds one
entry with the next version, and the annotations of later operators repeat the
terminal state. -/
namespace RailYard.Lifecycle
open Library Domain Store

def isNote : EventType → Bool
  | .operator action => action = "redrive" || action = "retry"
  | _ => false

def Follows (previous next : Entry) : Prop :=
  if isNote next.eventType then
    previous.state.terminal = true ∧ next.state = previous.state ∧
      next.stateVersion = previous.stateVersion
  else next.stateVersion = previous.stateVersion + 1

theorem Follows.ended (h : Follows previous next) (hnote : isNote next.eventType = true) :
    previous.state.terminal = true := by
  unfold Follows at h
  rw [if_pos hnote] at h
  exact h.1

theorem Follows.version (h : Follows previous next) (hmove : ¬isNote next.eventType = true) :
    next.stateVersion = previous.stateVersion + 1 := by
  unfold Follows at h
  rwa [if_neg hmove] at h

structure Timeline (entries : List Entry) (state : JobState) (stateVersion : Int) : Prop where
  admission : ∃ first rest, entries = first :: rest ∧ first.eventType = .jobAdmitted ∧
    first.stateVersion = 1 ∧ ∀ entry ∈ rest, entry.eventType ≠ .jobAdmitted
  chain : entries.IsChain Follows
  last : ∃ entry, entries.getLast? = some entry ∧ entry.state = state ∧
    entry.stateVersion = stateVersion

theorem Timeline.admitted (eventSeq : Int) (id : String) (state : JobState) :
    Timeline [⟨eventSeq, id, .jobAdmitted, state, 1⟩] state 1 where
  admission := ⟨_, [], rfl, rfl, rfl, by simp⟩
  chain := List.isChain_singleton _
  last := ⟨_, rfl, rfl, rfl⟩

theorem Timeline.append (h : Timeline entries state stateVersion) (entry : Entry)
    (hfollows : ∀ previous : Entry, previous.state = state →
      previous.stateVersion = stateVersion → Follows previous entry)
    (hkind : entry.eventType ≠ .jobAdmitted) :
    Timeline (entries ++ [entry]) entry.state entry.stateVersion where
  admission := by
    obtain ⟨first, rest, rfl, htype, hversion, hrest⟩ := h.admission
    refine ⟨first, rest ++ [entry], rfl, htype, hversion, ?_⟩
    intro found hfound
    rcases List.mem_append.mp hfound with hmem | hmem
    · exact hrest found hmem
    · rwa [List.mem_singleton.mp hmem]
  chain := by
    obtain ⟨previous, hlast, hstate, hversion⟩ := h.last
    refine List.IsChain.append h.chain (List.isChain_singleton _) ?_
    intro found hfound next hnext
    rw [hlast, Option.mem_def, Option.some.injEq] at hfound
    rw [List.head?_cons, Option.mem_def, Option.some.injEq] at hnext
    rw [← hfound, ← hnext]
    exact hfollows previous hstate hversion
  last := ⟨entry, by simp, rfl, rfl⟩

def entriesOf (id : String) (history : List Entry) : List Entry :=
  history.filter fun entry => entry.jobID = id

theorem entriesOf_record_self (history : List Entry) (id : String) (eventType : EventType)
    (state : JobState) (stateVersion : Int) :
    entriesOf id (record history id eventType state stateVersion) =
      entriesOf id history ++ [⟨history.length + 1, id, eventType, state, stateVersion⟩] := by
  unfold entriesOf record
  simp [List.filter_append]

theorem entriesOf_record_ne (history : List Entry) {id : String} (eventType : EventType)
    (state : JobState) (stateVersion : Int) (h : id ≠ jobID) :
    entriesOf id (record history jobID eventType state stateVersion) = entriesOf id history := by
  unfold entriesOf record
  simp [List.filter_append, Ne.symm h]

def Numbered (history : List Entry) : Prop :=
  history.map Entry.eventSeq = (List.range history.length).map fun index : Nat => (index : Int) + 1

theorem Numbered.place {history : List Entry} (h : Numbered history) {place : Nat} {entry : Entry}
    (hentry : history[place]? = some entry) : entry.eventSeq = place + 1 := by
  have hseq := congrArg (fun numbers => numbers[place]?) h
  have hlt := (List.getElem?_eq_some_iff.mp hentry).1
  rw [List.getElem?_map, hentry, List.getElem?_map, List.getElem?_range hlt] at hseq
  exact Option.some.inj hseq

theorem Numbered.record (h : Numbered history) (jobID : String) (eventType : EventType)
    (state : JobState) (stateVersion : Int) :
    Numbered (record history jobID eventType state stateVersion) := by
  unfold Numbered Lifecycle.record at *
  rw [List.map_append, h, List.length_append, List.length_singleton, List.range_succ,
    List.map_append]
  rfl

def admissions (jobs : List (String × JobRow)) (history : List Entry) : List Entry :=
  jobs.foldl (fun history entry =>
    record history entry.1 .jobAdmitted entry.2.state entry.2.stateVersion) history

theorem numbered_admissions (jobs : List (String × JobRow)) (h : Numbered history) :
    Numbered (admissions jobs history) := by
  induction jobs generalizing history with
  | nil => exact h
  | cons entry rest ih => exact ih (h.record _ _ _ _)

theorem entriesOf_admissions_of_notMem (jobs : List (String × JobRow)) (history : List Entry)
    {id : String} (h : id ∉ jobs.map Prod.fst) :
    entriesOf id (admissions jobs history) = entriesOf id history := by
  induction jobs generalizing history with
  | nil => rfl
  | cons entry rest ih =>
    rw [List.map_cons, List.mem_cons, not_or] at h
    change entriesOf id (admissions rest (record history _ _ _ _)) = _
    rw [ih _ h.2, entriesOf_record_ne _ _ _ _ h.1]

theorem entriesOf_admissions_of_mem {jobs : List (String × JobRow)} {id : String}
    (hnodup : (jobs.map Prod.fst).Nodup) (hmem : (id, row) ∈ jobs)
    (hnone : entriesOf id history = []) :
    ∃ eventSeq, entriesOf id (admissions jobs history) =
      [⟨eventSeq, id, .jobAdmitted, row.state, row.stateVersion⟩] := by
  induction jobs generalizing history with
  | nil => cases hmem
  | cons entry rest ih =>
    rw [List.map_cons, List.nodup_cons] at hnodup
    change ∃ eventSeq, entriesOf id (admissions rest (record history _ _ _ _)) = _
    rcases List.mem_cons.mp hmem with rfl | hrest
    · refine ⟨history.length + 1, ?_⟩
      rw [entriesOf_admissions_of_notMem rest _ hnodup.1, entriesOf_record_self, hnone]
      rfl
    · have hne : id ≠ entry.1 := by
        intro heq
        exact hnodup.1 (heq ▸ List.mem_map.mpr ⟨(id, row), hrest, rfl⟩)
      exact ih hnodup.2 hrest (by rw [entriesOf_record_ne _ _ _ _ hne, hnone])

structure Chronicle (yard : Yard) : Prop where
  timeline : ∀ id row, yard.jobs.get? id = some row →
    Timeline (entriesOf id yard.history) row.state row.stateVersion
  absent : ∀ id, yard.jobs.get? id = none → entriesOf id yard.history = []
  numbered : Numbered yard.history

theorem Chronicle.owned (h : Chronicle yard) {entry : Entry} (hentry : entry ∈ yard.history) :
    yard.jobs.get? entry.jobID ≠ none := by
  intro hnone
  have hmem : entry ∈ entriesOf entry.jobID yard.history :=
    List.mem_filter.mpr ⟨hentry, decide_eq_true rfl⟩
  rw [h.absent entry.jobID hnone] at hmem
  cases hmem

theorem Chronicle.of_same (h : Chronicle yard) (jobs : yard'.jobs = yard.jobs)
    (history : yard'.history = yard.history) : Chronicle yard' where
  timeline := by rw [jobs, history]; exact h.timeline
  absent := by rw [jobs, history]; exact h.absent
  numbered := by rw [history]; exact h.numbered

theorem isNote_of_move (h : EventType.ofMove eventType = true) :
    isNote eventType = false ∧ eventType ≠ .jobAdmitted := by
  cases eventType with
  | jobAdmitted => cases h
  | operator action =>
    unfold EventType.ofMove at h
    simp only [Bool.and_eq_true, decide_eq_true_eq] at h
    simp [isNote, h.1, h.2]
  | _ => exact ⟨rfl, by simp⟩

theorem Chronicle.move {move : Move} (h : Chronicle yard) (valid : move.Valid policy yard) :
    Chronicle (move.apply yard) where
  timeline := by
    intro id row hrow
    rcases Move.get?_apply_cases valid hrow with ⟨rfl, rfl⟩ | ⟨hne, hold⟩
    · obtain ⟨hnote, hadmission⟩ := isNote_of_move valid.event
      have hbefore := h.timeline move.id move.row valid.found
      unfold Move.apply
      dsimp only
      rw [entriesOf_record_self]
      refine hbefore.append _ ?_ hadmission
      intro previous _ hversion
      unfold Follows
      dsimp only
      rw [hnote, hversion, valid.version]
      simp
    · unfold Move.apply
      dsimp only
      rw [entriesOf_record_ne _ _ _ _ hne]
      exact h.timeline id row hold
  absent := by
    intro id hnone
    have hne : id ≠ move.id := by
      intro heq
      rw [heq, Move.get?_apply_self valid] at hnone
      cases hnone
    rw [Move.get?_apply_ne move hne] at hnone
    unfold Move.apply
    dsimp only
    rw [entriesOf_record_ne _ _ _ _ hne]
    exact h.absent id hnone
  numbered := h.numbered.record _ _ _ _

theorem Chronicle.admission {batch : Batch} (h : Chronicle yard) (valid : batch.Valid yard) :
    Chronicle (batch.apply yard) where
  timeline := by
    intro id row hrow
    rcases Batch.get?_apply_cases valid hrow with ⟨hmem, hnone⟩ | ⟨hid, hold⟩
    · obtain ⟨eventSeq, hentries⟩ :=
        entriesOf_admissions_of_mem valid.nodup hmem (h.absent id hnone)
      change Timeline (entriesOf id (admissions batch.jobs yard.history)) _ _
      rw [hentries, (valid.rows id row hmem).stateVersion]
      exact .admitted eventSeq id row.state
    · change Timeline (entriesOf id (admissions batch.jobs yard.history)) _ _
      rw [entriesOf_admissions_of_notMem _ _ hid]
      exact h.timeline id row hold
  absent := by
    intro id hnone
    have hid : id ∉ batch.ids := by
      intro hmem
      obtain ⟨row, hrow⟩ := Batch.mem_ids.mp hmem
      rw [Batch.get?_apply_new valid hrow] at hnone
      cases hnone
    have hold : yard.jobs.get? id = none := by
      unfold Batch.apply at hnone
      rwa [Table.get?_insertAll_of_notMem _ hid] at hnone
    change entriesOf id (admissions batch.jobs yard.history) = []
    rw [entriesOf_admissions_of_notMem _ _ hid]
    exact h.absent id hold
  numbered := numbered_admissions batch.jobs h.numbered

theorem Chronicle.note {id : String} (h : Chronicle yard) (found : yard.jobs.get? id = some row)
    (haction : action = "redrive" ∨ action = "retry") (hover : row.state.terminal = true) :
    Chronicle { yard with
      history := record yard.history id (.operator action) row.state row.stateVersion } where
  timeline := by
    intro id' row' hrow'
    dsimp only at hrow' ⊢
    by_cases hid : id' = id
    · subst hid
      rw [found, Option.some.injEq] at hrow'
      subst hrow'
      have hnote : isNote (.operator action) = true := by
        rcases haction with rfl | rfl <;> rfl
      rw [entriesOf_record_self]
      refine (h.timeline id' row found).append _ ?_ (by simp)
      intro previous hprevious hversion
      unfold Follows
      dsimp only
      rw [if_pos hnote, hprevious, hversion]
      exact ⟨hover, rfl, rfl⟩
    · rw [entriesOf_record_ne _ _ _ _ hid]
      exact h.timeline id' row' hrow'
  absent := by
    intro id' hnone
    dsimp only at hnone ⊢
    have hid : id' ≠ id := by
      rintro rfl
      rw [found] at hnone
      cases hnone
    rw [entriesOf_record_ne _ _ _ _ hid]
    exact h.absent id' hnone
  numbered := h.numbered.record _ _ _ _

theorem Chronicle.micro (yard yard' : Yard) (h : Chronicle yard)
    (hstep : Micro policy yard yard') : Chronicle yard' := by
  cases hstep with
  | tenant => exact h.of_same rfl rfl
  | queue => exact h.of_same rfl rfl
  | admission batch valid => exact h.admission valid
  | heartbeat => exact h.of_same rfl rfl
  | note id row action found haction hover => exact h.note found haction hover
  | move move valid => exact h.move valid

end RailYard.Lifecycle
