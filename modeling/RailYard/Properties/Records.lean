import RailYard.Refinement.Runs

/-! What the tables record about the jobs: the terminal ledger and the event log
both tell the state of the row they belong to, and the slot accounts tell what
the leased rows cost together. -/
namespace RailYard.Properties
open Library Domain Store Lifecycle Refinement

def completionsOf (db : Database) (id : String) : List CompletionRow :=
  (db.jobCompletions.rows.filter fun entry => entry.1 = id).map Prod.snd

structure Ledgered (db : Database) (id : String) (job : JobRow) : Prop where
  terminal_iff : job.state.terminal = true ↔ (completionsOf db id).length = 1
  completion : ∀ completion ∈ completionsOf db id, completion.state = job.state ∧
    completion.stateVersion = job.stateVersion ∧ completion.attemptNo = job.attemptNo ∧
    job.terminalAt = some completion.committedAt
  deadLetter_iff : (db.deadLetters.get? id).isSome ↔ job.state = .deadLetter

structure Final (db db' : Database) (id : String) (job : JobRow) : Prop where
  job : ∃ job', db'.jobs.get? id = some job' ∧ job'.state = job.state ∧
    job'.stateVersion = job.stateVersion ∧ job'.attemptNo = job.attemptNo
  completions : completionsOf db' id = completionsOf db id

theorem completionsOf_eq (db : Database) (id : String) :
    completionsOf db id = (db.jobCompletions.get? id).toList :=
  db.jobCompletions.rows_of_key id

theorem ledgered_of_accounted {id : String} (h : Accounted (yardOf db) id job) :
    Ledgered db id job := by
  cases hterminal : job.state.terminal with
  | true =>
    obtain ⟨completion, hfound, hsettles⟩ := h.settled hterminal
    change db.jobCompletions.get? id = some completion at hfound
    have hrows : completionsOf db id = [completion] := by
      rw [completionsOf_eq, hfound]
      rfl
    refine ⟨?_, ?_, h.deadLetter⟩
    · rw [hterminal, hrows]
      simp
    · intro other hother
      rw [hrows, List.mem_singleton] at hother
      subst hother
      exact ⟨hsettles.state, hsettles.stateVersion, hsettles.attemptNo, hsettles.committedAt⟩
  | false =>
    have hnone := h.unsettled hterminal
    change db.jobCompletions.get? id = none at hnone
    have hrows : completionsOf db id = [] := by
      rw [completionsOf_eq, hnone]
      rfl
    refine ⟨?_, ?_, h.deadLetter⟩
    · rw [hterminal, hrows]
      simp
    · intro other hother
      rw [hrows] at hother
      cases hother

theorem final_of_evolves {id : String} (h : Evolves (yardOf db) (yardOf db'))
    (ledger : Ledger (yardOf db)) (hjob : db.jobs.get? id = some job)
    (hterminal : job.state.terminal = true) :
    Final db db' id job := by
  obtain ⟨completion, hfound, _⟩ := (ledger.accounted id job hjob).settled hterminal
  have hlater := h.completions id completion hfound
  change db.jobCompletions.get? id = some completion at hfound
  change db'.jobCompletions.get? id = some completion at hlater
  refine ⟨⟨job, h.terminal hjob hterminal, rfl, rfl, rfl⟩, ?_⟩
  rw [completionsOf_eq, completionsOf_eq, hfound, hlater]

/-- In every reachable state the ledger has exactly one row, a true copy, for
each terminal job and none for the others, and what it says is final. -/
theorem terminal_ledger (env : Env) (options : Options) (activities later : List Activity) :
    let db := (run env (freshStore options) activities).db
    let db' := (run env (freshStore options) (activities ++ later)).db
    ∀ id job, db.jobs.get? id = some job →
      Ledgered db id job ∧ (job.state.terminal = true → Final db db' id job) := by
  intro db db' id job hjob
  have ledger := (sound_run env options activities).ledger
  exact ⟨ledgered_of_accounted (ledger.accounted id job hjob),
    final_of_evolves (evolves_run env options activities later) ledger hjob⟩

/-- A job's events, `ORDER BY event_seq`. -/
def jobEvents (db : Database) (id : String) : List EventRow :=
  (db.events.filter fun event => event.jobID = id).insertionSort fun a b =>
    a.eventSeq ≤ b.eventSeq

def EventFollows (previous next : EventRow) : Prop :=
  if next.eventType = .operator "redrive" ∨ next.eventType = .operator "retry" then
    previous.state.terminal = true ∧ next.state = previous.state ∧
      next.stateVersion = previous.stateVersion
  else next.stateVersion = previous.stateVersion + 1

structure Folds (events : List EventRow) (job : JobRow) : Prop where
  admission : ∃ first rest, events = first :: rest ∧ first.eventType = .jobAdmitted ∧
    first.stateVersion = 1 ∧ ∀ event ∈ rest, event.eventType ≠ .jobAdmitted
  chain : events.IsChain EventFollows
  last : ∃ event, events.getLast? = some event ∧ event.state = job.state ∧
    event.stateVersion = job.stateVersion

theorem eventFollows_iff (previous next : EventRow) :
    EventFollows previous next ↔ Follows (entry previous) (entry next) := by
  have hnote : isNote next.eventType = true ↔
      next.eventType = .operator "redrive" ∨ next.eventType = .operator "retry" := by
    cases next.eventType <;> simp [isNote]
  unfold EventFollows Follows
  change _ ↔ if isNote next.eventType = true then _ else _
  by_cases h : isNote next.eventType = true
  · rw [if_pos h, if_pos (hnote.mp h)]
    rfl
  · rw [if_neg h, if_neg (mt hnote.mpr h)]
    rfl

theorem folds_of_timeline (h : Timeline (events.map entry) job.state job.stateVersion) :
    Folds events job where
  admission := by
    obtain ⟨first, rest, heq, htype, hversion, hrest⟩ := h.admission
    cases events with
    | nil => cases heq
    | cons event events =>
      rw [List.map_cons, List.cons.injEq] at heq
      obtain ⟨rfl, rfl⟩ := heq
      exact ⟨event, events, rfl, htype, hversion, fun other hother =>
        hrest (entry other) (List.mem_map.mpr ⟨other, hother, rfl⟩)⟩
  chain := by
    have hchain := h.chain
    rw [List.isChain_map] at hchain
    exact hchain.imp fun previous next => (eventFollows_iff previous next).mpr
  last := by
    obtain ⟨last, hlast, hstate, hversion⟩ := h.last
    rw [List.getLast?_map, Option.map_eq_some_iff] at hlast
    obtain ⟨event, hevent, rfl⟩ := hlast
    exact ⟨event, hevent, hstate, hversion⟩

theorem events_ascending {db : Database} (h : Numbered (db.events.map entry)) :
    db.events.Pairwise fun first second => first.eventSeq < second.eventSeq := by
  have hseq : db.events.map EventRow.eventSeq =
      (List.range db.events.length).map fun index : Nat => (index : Int) + 1 := by
    unfold Numbered at h
    rw [List.map_map, List.length_map] at h
    exact h
  have hsorted : (db.events.map EventRow.eventSeq).Pairwise (· < ·) := by
    rw [hseq, List.pairwise_map]
    exact List.pairwise_lt_range.imp fun hlt => by omega
  exact List.pairwise_map.mp hsorted

theorem jobEvents_eq (h : Numbered (db.events.map entry)) (id : String) :
    jobEvents db id = db.events.filter fun event => event.jobID = id := by
  apply List.Pairwise.insertionSort_eq
  exact ((events_ascending h).sublist List.filter_sublist).imp fun hless => Int.le_of_lt hless

/-- In every reachable state the events of every job fold to its row. -/
theorem event_fold (env : Env) (options : Options) (activities : List Activity) :
    let db := (run env (freshStore options) activities).db
    ∀ id job, db.jobs.get? id = some job → Folds (jobEvents db id) job := by
  intro db id job hjob
  have chronicle := (sound_run env options activities).chronicle
  rw [jobEvents_eq chronicle.numbered]
  apply folds_of_timeline
  have htimeline := chronicle.timeline id job hjob
  unfold entriesOf at htimeline
  change Timeline ((db.events.map entry).filter _) _ _ at htimeline
  rw [List.filter_map] at htimeline
  exact htimeline

/-- The total cost of the leased jobs that `owner` selects. -/
def leasedCost (db : Database) (owner : JobRow → Bool) : Int :=
  (((db.jobs.rows.map Prod.snd).filter fun job =>
    owner job && (job.state == .scheduled || job.state == .running)).map JobRow.slotCost).sum

/-- The slot accounts of every tenant and queue are those of the leased jobs. -/
structure SlotsExact (db : Database) : Prop where
  tenant : ∀ id limits, db.tenantLimits.get? id = some limits →
    limits.activeSlots = leasedCost db fun job => job.tenantID = id
  queue : ∀ tenantID name queue, db.queueState.get? (tenantID, name) = some queue →
    queue.activeSlots = leasedCost db fun job => job.tenantID = tenantID ∧ job.queueName = name
  cap : ∀ id limits, db.tenantLimits.get? id = some limits → 0 < limits.maxSlots →
    limits.activeSlots ≤ limits.maxSlots
  opened : ∀ id job, db.jobs.get? id = some job →
    (db.tenantLimits.get? job.tenantID).isSome ∧
      (db.queueState.get? (job.tenantID, job.queueName)).isSome

theorem leasedCost_eq (db : Database) (owner : JobRow → Bool) :
    db.jobs.sumBy (fun _ job => if owner job then slots job else 0) = leasedCost db owner := by
  unfold leasedCost
  rw [← Table.sumBy_ite]
  congr 1
  funext _ job
  unfold slots
  cases owner job <;> cases job.state <;> rfl

theorem slotsExact_of_accounts (accounts : Accounts (yardOf db)) : SlotsExact db where
  tenant := by
    intro id limits hlimits
    rw [accounts.tenant id limits hlimits, ← leasedCost_eq]
    unfold tenantSlots
    simp only [decide_eq_true_eq]
    rfl
  queue := by
    intro tenantID name queue hqueue
    have hactive : activeSlots db.queueState (tenantID, name) = some queue.activeSlots := by
      unfold activeSlots
      rw [hqueue]
      rfl
    rw [accounts.queue (tenantID, name) queue.activeSlots hactive, ← leasedCost_eq]
    unfold queueSlots
    simp only [decide_eq_true_eq, Prod.mk.injEq]
    rfl
  cap := accounts.cap
  opened := by
    intro id job hjob
    have hqueue := accounts.queueExists id job hjob
    change (activeSlots db.queueState _).isSome = true at hqueue
    unfold activeSlots at hqueue
    rw [Option.isSome_map] at hqueue
    exact ⟨accounts.tenantExists id job hjob, hqueue⟩

/-- In every reachable state the slot accounts are exact and within the caps. -/
theorem slot_accounting (env : Env) (options : Options) (activities : List Activity) :
    SlotsExact (run env (freshStore options) activities).db :=
  slotsExact_of_accounts (sound_run env options activities).accounts

end RailYard.Properties
