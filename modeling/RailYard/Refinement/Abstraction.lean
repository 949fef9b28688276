import RailYard.Lifecycle.Edges
import RailYard.Lifecycle.Invariant
import RailYard.Store.Statements

/-! The yard behind a database, and what the shared statements do to it. -/
namespace RailYard.Refinement
open Library Library.Transaction Domain Store
open Lifecycle Relation

def entry (event : EventRow) : Entry :=
  ⟨event.eventSeq, event.jobID, event.eventType, event.state, event.stateVersion⟩

def activeSlots (queues : Table (String × String) QueueRow) (key : String × String) : Option Int :=
  (queues.get? key).map QueueRow.activeSlots

def yardOf (db : Database) : Yard where
  jobs := db.jobs
  edges := db.jobDependencies
  attempts := db.attempts
  completions := db.jobCompletions
  deadLetters := fun id => (db.deadLetters.get? id).isSome
  tenants := db.tenantLimits
  queueSlots := activeSlots db.queueState
  history := db.events.map entry
  readySeq := db.readySeq

theorem yardOf_empty : yardOf .empty = .empty := rfl

theorem activeSlots_modify (queues : Table (String × String) QueueRow) (key : String × String)
    (change : QueueRow → QueueRow) (delta : Int)
    (h : ∀ row, (change row).activeSlots = row.activeSlots + delta) :
    activeSlots (queues.modify key change) =
      Function.update (activeSlots queues) key ((activeSlots queues key).map (· + delta)) := by
  funext key'
  unfold activeSlots
  rw [Table.get?_modify]
  by_cases hkey : key' = key
  · subst hkey
    rw [if_pos rfl, Function.update_self, Option.map_map, Option.map_map]
    congr 1
    funext row
    exact h row
  · rw [if_neg hkey, Function.update_of_ne hkey]

theorem nextReadySeq_ok (h : nextReadySeq db = .ok seq db') : seq = (yardOf db).readySeq + 1 ∧
      yardOf db' = { yardOf db with readySeq := (yardOf db).readySeq + 1 } := by
  obtain ⟨_, between, hmutate, hquery⟩ := bind_ok h
  rw [← mutate_ok hmutate] at hquery
  obtain ⟨hseq, rfl⟩ := query_ok hquery
  exact ⟨hseq.symm, rfl⟩

theorem addEvent_ok
    (h : addEvent storage jobID eventType state stateVersion now payload db = .ok () db') :
    yardOf db' = { yardOf db with
      history := record (yardOf db).history jobID eventType state stateVersion } := by
  rw [← mutate_ok h]
  unfold yardOf record
  dsimp only
  rw [List.map_append, List.length_map]
  rfl

theorem updateJob_ok {α : Type} {id : String} {guard : JobRow → Bool} {change : JobRow → JobRow}
    {error : Error} {next : Tx α} {value : α}
    (h : (update jobs id guard change >>= fun affected =>
      require (affected = true) error >>= fun _ => next) db = .ok value db') :
    ∃ row db1, (yardOf db).jobs.get? id = some row ∧ guard row = true ∧
      yardOf db1 = { yardOf db with
        jobs := (yardOf db).jobs.modify id fun _ => change row } ∧
      next db1 = .ok value db' := by
  obtain ⟨row, hrow, hguard, h⟩ := update_require_ok h
  refine ⟨row, _, hrow, hguard, ?_, h⟩
  have hjobs : db.jobs.modify id change = db.jobs.modify id fun _ => change row :=
    Table.modify_congr db.jobs hrow rfl
  apply Yard.ext <;> try rfl
  exact hjobs

theorem updateJob_read {id : String} {guard : JobRow → Bool}
    (hrow : (yardOf db).jobs.get? id = some row) (hguard : guard row = true)
    (h : (update jobs id guard change : Tx Bool) db = .ok affected db') :
    yardOf db' = { yardOf db with jobs := (yardOf db).jobs.modify id fun _ => change row } := by
  have hjobs : db.jobs.modify id change = db.jobs.modify id fun _ => change row :=
    Table.modify_congr db.jobs hrow rfl
  rw [update_run change hrow hguard] at h
  cases h
  apply Yard.ext <;> try rfl
  exact hjobs

theorem updateAttempt_ok {guard : AttemptRow → Bool}
    (h : (update attempts key guard change : Tx Bool) db = .ok affected db') :
    yardOf db' = { yardOf db with
      attempts := (yardOf db).attempts.modify key fun row =>
        if guard row then change row else row } := by
  rcases update_ok h with ⟨_, row, hrow, hguard, rfl⟩ | ⟨_, hguard, rfl⟩
  · have hattempts : db.attempts.modify key change =
        db.attempts.modify key fun row => if guard row then change row else row := by
      apply Table.modify_congr db.attempts hrow
      rw [if_pos hguard]
    apply Yard.ext <;> try rfl
    exact hattempts
  · rw [Table.modify_self]
    intro row hrow
    rw [if_neg]
    rw [hguard row hrow]
    exact Bool.false_ne_true

theorem releaseSlots_ok (h : releaseSlots tenantID queue slotCost now db = .ok () db') :
    yardOf db' = (yardOf db).shift tenantID queue (-slotCost) := by
  obtain ⟨_, _, _, h⟩ := update_require_ok h
  obtain ⟨queueReleased, _, hqueue, h⟩ := bind_ok h
  obtain ⟨hqueueReleased, rfl⟩ := require_ok h
  rcases update_ok hqueue with ⟨_, _, _, _, rfl⟩ | ⟨hfalse, _⟩
  · apply Yard.ext <;> try rfl
    exact activeSlots_modify _ _ _ _ fun row => sub_eq_add_neg row.activeSlots slotCost
  · rw [hfalse] at hqueueReleased
    cases hqueueReleased

theorem reserveSlots_ok (h : reserveSlots tenantID queue slotCost now db = .ok true db') :
    yardOf db' = (yardOf db).shift tenantID queue slotCost ∧
      ∃ limits, (yardOf db).tenants.get? tenantID = some limits ∧
        (limits.maxSlots = 0 ∨ limits.activeSlots + slotCost ≤ limits.maxSlots) := by
  obtain ⟨reserved, middle, htenant, h⟩ := bind_ok h
  split at h
  · rename_i hreserved
    obtain ⟨_, _, _, h⟩ := update_require_ok h
    obtain ⟨_, rfl⟩ := pure_ok h
    rcases update_ok htenant with ⟨_, limits, hlimits, hguard, rfl⟩ | ⟨hfalse, _⟩
    · refine ⟨?_, limits, hlimits, by simpa using hguard⟩
      apply Yard.ext <;> try rfl
      exact activeSlots_modify _ _ _ _ fun _ => rfl
    · rw [hfalse] at hreserved
      cases hreserved
  · obtain ⟨hfalse, _⟩ := pure_ok h
    cases hfalse

theorem insertCanonicalCompletion_ok {state : JobState} {failure : Option Failure}
    (h : insertCanonicalCompletion jobID state stateVersion attemptNo outputDigest failure now db =
      .ok () db') :
    state.terminal = true ∧ yardOf db' = { yardOf db with
      completions := (yardOf db).completions.insert jobID
        ⟨state, stateVersion, attemptNo, outputDigest, failure, timeToDB now⟩ } := by
  obtain ⟨hterminal, h⟩ := require_bind h
  obtain ⟨_, rfl⟩ := insert_ok h
  exact ⟨hterminal, rfl⟩

theorem insertDeadLetter_ok {failure : Option Failure}
    (h : insertDeadLetter jobID failure now db = .ok () db') :
    yardOf db' = { yardOf db with
      deadLetters := Function.update (yardOf db).deadLetters jobID true } := by
  unfold insertDeadLetter at h
  split at h
  · exact (throw_ok h).elim
  · obtain ⟨_, rfl⟩ := insert_ok h
    apply Yard.ext <;> try rfl
    funext id
    change ((db.deadLetters.insert jobID _).get? id).isSome =
      Function.update (yardOf db).deadLetters jobID true id
    rw [Table.get?_insert]
    by_cases hid : id = jobID
    · rw [if_pos hid, hid, Function.update_self]
      rfl
    · rw [if_neg hid, Function.update_of_ne hid]
      rfl

theorem settle_ok {id : String} (next : JobRow) (outputDigest : String)
    (hended : next.state.terminal = true → next.terminalAt = some (timeToDB now))
    (hcompletion : onlyIf (next.state.terminal = true)
      (insertCanonicalCompletion id next.state next.stateVersion next.attemptNo outputDigest
        next.failure now) db = .ok () middle)
    (hdead : onlyIf (next.state = .deadLetter) (insertDeadLetter id next.failure now) middle =
      .ok () db') :
    yardOf db' = { yardOf db with
      completions := if next.state.terminal then
          (yardOf db).completions.insert id (ledgerRow next outputDigest)
        else (yardOf db).completions
      deadLetters := if next.state = .deadLetter then
          Function.update (yardOf db).deadLetters id true
        else (yardOf db).deadLetters } := by
  have hmiddle : yardOf middle = { yardOf db with
      completions := if next.state.terminal then
          (yardOf db).completions.insert id (ledgerRow next outputDigest)
        else (yardOf db).completions } := by
    rcases onlyIf_ok hcompletion with ⟨hterminal, hinsert⟩ | ⟨halive, rfl⟩
    · obtain ⟨_, hyard⟩ := insertCanonicalCompletion_ok hinsert
      rw [if_pos hterminal, hyard]
      unfold ledgerRow
      rw [hended hterminal]
      rfl
    · rw [if_neg halive]
  rcases onlyIf_ok hdead with ⟨hstate, hinsert⟩ | ⟨hstate, rfl⟩
  · rw [if_pos hstate, insertDeadLetter_ok hinsert, hmiddle]
  · rw [if_neg hstate, hmiddle]

def Tracked (db : Database) (entry : String × JobRow) : Prop :=
  ∃ row, db.jobs.get? entry.1 = some row ∧ Later entry.2 row

theorem Tracked.evolves {entry : String × JobRow} (h : Tracked db entry)
    (hevolves : Evolves (yardOf db) (yardOf db')) : Tracked db' entry := by
  obtain ⟨row, hrow, hlater⟩ := h
  obtain ⟨row', hrow', hlater'⟩ := hevolves.jobs entry.1 row hrow
  exact ⟨row', hrow', hlater.trans hlater'⟩

theorem Tracked.eq {entry : String × JobRow} (h : Tracked db entry) {row : JobRow}
    (hrow : db.jobs.get? entry.1 = some row) (hversion : row.stateVersion = entry.2.stateVersion) :
    row = entry.2 := by
  obtain ⟨found, hfound, hlater⟩ := h
  rw [hrow, Option.some.injEq] at hfound
  subst hfound
  exact hlater.same hversion

theorem forM_reaches {α : Type} {R : Yard → Yard → Prop} {items : List α} {body : α → Tx Unit}
    (hbody : ∀ item ∈ items, ∀ before after, ReflTransGen R (yardOf db) (yardOf before) →
      body item before = .ok () after → ReflTransGen R (yardOf before) (yardOf after))
    (h : items.forM body db = .ok () db') : ReflTransGen R (yardOf db) (yardOf db') := by
  have hend : ReflTransGen R (yardOf db) (yardOf db') ∧ ([] : List α) ⊆ items := by
    refine forM_ok (motive := fun rest state =>
      ReflTransGen R (yardOf db) (yardOf state) ∧ rest ⊆ items) ?_
      ⟨.refl, List.Subset.refl items⟩ h
    rintro item rest before after ⟨hreached, hsubset⟩ hitem
    have hmem : item ∈ items := hsubset (List.mem_cons_self ..)
    exact ⟨hreached.trans (hbody item hmem before after hreached hitem),
      fun found hfound => hsubset (List.mem_cons_of_mem _ hfound)⟩
  exact hend.1

end RailYard.Refinement
