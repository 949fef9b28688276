import Mathlib.Data.List.Dedup
import RailYard.Oracle.Analyze

/-! What a pass without findings says about the rows it went over. -/
namespace RailYard.Oracle
open Library Library.Findings

@[simp] theorem silent_add (check jobID message : String) : ¬(add check jobID message).Silent :=
  silent_report _

@[simp] theorem silent_addIf {condition : Prop} [Decidable condition] {check : String} :
    (addIf condition check jobID message).Silent ↔ ¬condition := silent_reportIf

section Places

variable {ρ : Type} {rows : List ρ}

theorem isChain_iff_places :
    rows.IsChain relation ↔ ∀ (place : Nat) (before row : ρ), rows[place]? = some before →
      rows[place + 1]? = some row → relation before row := by
  rw [List.isChain_iff_getElem]
  constructor
  · intro h place before row hbefore hrow
    obtain ⟨hlt, rfl⟩ := List.getElem?_eq_some_iff.mp hrow
    obtain ⟨_, rfl⟩ := List.getElem?_eq_some_iff.mp hbefore
    exact h place hlt
  · intro h place hlt
    exact h place _ _ (List.getElem?_eq_getElem (Nat.lt_of_succ_lt hlt))
      (List.getElem?_eq_getElem hlt)

end Places

section Manifest

variable {accepted : List AcceptedRecord} {expected : Int}

def recordKey (record : AcceptedRecord) : String :=
  manifestKey record.tenantID record.submissionKey

theorem value_records (rows : List AcceptedRecord) (place : Nat) (maps : Manifest × Manifest) :
    (rows.zipIdx place).foldl (fun maps entry => (analyzeRecord maps entry).value) maps =
      (rows.foldl (fun table row => table.put row.jobID row) maps.1,
        rows.foldl (fun table row => table.put (recordKey row) row) maps.2) := by
  induction rows generalizing place maps with
  | nil => rfl
  | cons row rest ih =>
    rw [List.zipIdx_cons, List.foldl_cons]
    exact ih _ _

theorem value_analyzeManifest : (analyzeManifest accepted expected).value =
    (Table.index AcceptedRecord.jobID accepted, Table.index recordKey accepted) := by
  unfold analyzeManifest
  rw [value_bind, value_foldlM]
  exact value_records accepted 0 _

theorem fresh_of_silent {entry : AcceptedRecord × Nat} (h : (analyzeRecord maps entry).Silent) :
    maps.1.get? entry.1.jobID = none := by
  simp only [analyzeRecord, silent_bind, silent_addIf] at h
  simpa using h.2.2.2.2.2.1

theorem nodup_of_silent (h : (analyzeManifest accepted expected).Silent) :
    (accepted.map AcceptedRecord.jobID).Nodup := by
  rw [analyzeManifest, silent_bind, silent_foldlM] at h
  apply Table.nodup_of_fresh
  rintro before row after rfl
  have hturn := h.2 before.zipIdx (row, before.length) (after.zipIdx (before.length + 1)) (by
    rw [List.zipIdx_append, List.zipIdx_cons, Nat.zero_add])
  have hfresh := fresh_of_silent hturn
  rwa [value_records] at hfresh

end Manifest

section Jobs

variable {rows : List JobRow} {accepted : Manifest}

theorem value_analyzeJobs : (analyzeJobs rows accepted).value = Table.index JobRow.id rows :=
  Table.value_filling (fun _ _ => rfl) rows

structure JobsSound (rows : List JobRow) (accepted : Manifest) : Prop where
  once : (rows.map JobRow.id).Nodup
  covered : ∀ jobID, jobID ∈ rows.map JobRow.id ↔ (accepted.get? jobID).isSome = true

theorem jobs_of_silent (h : (analyzeJobs rows accepted).Silent) : JobsSound rows accepted := by
  simp only [analyzeJobs, silent_bind, silent_pure, and_true, silent_forM, silent_addIf,
    Option.isNone_iff_eq_none] at h
  obtain ⟨hrows, hmissing⟩ := h
  rw [Table.silent_filling (fun _ _ => rfl)] at hrows
  rw [Table.value_filling (fun _ _ => rfl)] at hmissing
  simp only [analyzeJob, silent_bind, silent_pure, and_true, silent_addIf, Bool.not_eq_true,
    Option.isSome_eq_false_iff, Option.isNone_iff_eq_none] at hrows
  refine ⟨Table.nodup_of_fresh fun before row after heq => (hrows before row after heq).1,
    Table.covered_iff (fun row hmem => ?_) hmissing⟩
  obtain ⟨before, after, heq⟩ := List.append_of_mem hmem
  exact (hrows before row after heq).2.1

end Jobs

section Completions

variable {rows : List CompletionRow} {accepted : Manifest} {jobs : Jobs}

structure Agrees (completion : CompletionRow) (job : JobRow) : Prop where
  state : completion.state = job.state
  version : completion.stateVersion = job.stateVersion
  attempt : completion.attemptNo = job.attemptNo
  succeeded : completion.state = "SUCCEEDED"

theorem agrees_of_silent (h : (analyzeOutcome completion job).Silent) : Agrees completion job := by
  simp only [analyzeOutcome, silent_bind, silent_addIf, not_or, not_not] at h
  obtain ⟨⟨hstate, hversion, hattempt⟩, _, hsucceeded, _⟩ := h
  exact ⟨hstate, hversion, hattempt, hsucceeded⟩

theorem value_analyzeCompletions :
    (analyzeCompletions rows accepted jobs).value = Table.index CompletionRow.jobID rows :=
  Table.value_filling (fun _ _ => rfl) rows

structure CompletionsSound (rows : List CompletionRow) (accepted : Manifest) (jobs : Jobs) :
    Prop where
  once : (rows.map CompletionRow.jobID).Nodup
  covered : ∀ jobID, jobID ∈ rows.map CompletionRow.jobID ↔ (accepted.get? jobID).isSome = true
  agrees : ∀ completion ∈ rows, ∃ job, jobs.get? completion.jobID = some job ∧
    Agrees completion job

theorem completions_of_silent (h : (analyzeCompletions rows accepted jobs).Silent) :
    CompletionsSound rows accepted jobs := by
  simp only [analyzeCompletions, silent_bind, silent_pure, and_true, silent_forM, silent_addIf,
    Option.isNone_iff_eq_none] at h
  obtain ⟨hrows, hmissing, _⟩ := h
  rw [Table.silent_filling (fun _ _ => rfl)] at hrows
  rw [Table.value_filling (fun _ _ => rfl)] at hmissing
  simp only [analyzeCompletion, silent_bind, silent_pure, and_true, silent_addIf,
    Bool.not_eq_true, Option.isSome_eq_false_iff, Option.isNone_iff_eq_none] at hrows
  refine ⟨Table.nodup_of_fresh fun before row after heq => (hrows before row after heq).1,
    Table.covered_iff (fun row hmem => ?_) hmissing, ?_⟩
  · obtain ⟨before, after, heq⟩ := List.append_of_mem hmem
    exact (hrows before row after heq).2.1
  · intro completion hmem
    obtain ⟨before, after, heq⟩ := List.append_of_mem hmem
    have houtcome := (hrows before completion after heq).2.2
    unfold analyzeMaterialized at houtcome
    cases hjob : jobs.get? completion.jobID with
    | none =>
      rw [hjob] at houtcome
      exact (silent_add _ _ _ houtcome).elim
    | some job =>
      rw [hjob] at houtcome
      exact ⟨job, rfl, agrees_of_silent houtcome⟩

end Completions

section Attempts

variable {rows : List AttemptRow} {jobs : Jobs} {completions : Completions}

structure Settles (last : AttemptRow) (completion : CompletionRow) : Prop where
  number : last.attemptNo = completion.attemptNo
  state : attemptMatchesCompletion last.state completion.state = true
  receipt : last.receiptCommittedAt = some completion.committedAt

structure Fenced (attempts : List AttemptRow) : Prop where
  numbered : ∀ (place : Nat) (attempt : AttemptRow), attempts[place]? = some attempt →
    attempt.attemptNo = place + 1
  growing : attempts.IsChain fun before attempt =>
    before.leaseGeneration < attempt.leaseGeneration

theorem fenced_of_silent {attempts : List AttemptRow} (h : (analyzeFences jobID attempts).Silent) :
    Fenced attempts := by
  rw [analyzeFences, silent_zipIdx] at h
  simp only [silent_bind, silent_addIf, not_not] at h
  refine ⟨fun place attempt hattempt => (h place attempt hattempt).1, ?_⟩
  rw [isChain_iff_places]
  intro place before attempt hbefore hattempt
  have hgrows := (h (place + 1) attempt hattempt).2
  rw [silent_addIf, hbefore] at hgrows
  simpa using hgrows

theorem Fenced.increasing {attempts : List AttemptRow} (h : Fenced attempts) :
    attempts.Pairwise fun before attempt => before.attemptNo < attempt.attemptNo ∧
      before.leaseGeneration < attempt.leaseGeneration := by
  have hnumbers : attempts.IsChain fun before attempt =>
      before.attemptNo < attempt.attemptNo := by
    rw [isChain_iff_places]
    intro place before attempt hbefore hattempt
    have hleft := h.numbered place before hbefore
    have hright := h.numbered (place + 1) attempt hattempt
    push_cast at hright
    omega
  have htrans : ∀ (f : AttemptRow → Int), IsTrans AttemptRow fun before attempt =>
      f before < f attempt := fun f => ⟨fun _ _ _ => lt_trans⟩
  have := htrans AttemptRow.attemptNo
  have := htrans AttemptRow.leaseGeneration
  exact hnumbers.pairwise.and h.growing.pairwise

/-- Every attempt is closed, every job's attempts are fenced and agree with its
row and its completion. -/
structure AttemptsSound (rows : List AttemptRow) (jobs : Jobs) (completions : Completions) :
    Prop where
  closed : ∀ attempt ∈ rows, activeAttemptState attempt.state = false
  numbered : ∀ attempt ∈ rows, 0 < attempt.attemptNo
  receipts : ∀ attempt ∈ rows, receiptFields attempt = 0 ∨ receiptFields attempt = 4
  fenced : ∀ jobID, Fenced (attemptsOf rows jobID)
  settled : ∀ jobID job completion, jobs.get? jobID = some job →
    completions.get? jobID = some completion → completion.attemptNo = job.attemptNo →
    0 < completion.attemptNo →
    ∃ last, (attemptsOf rows jobID).getLast? = some last ∧ Settles last completion

theorem attemptsOf_eq_nil (h : jobID ∉ rows.map AttemptRow.jobID) : attemptsOf rows jobID = [] := by
  rw [attemptsOf, List.filter_eq_nil_iff]
  intro attempt hattempt heq
  exact h (List.mem_map.mpr ⟨attempt, hattempt, of_decide_eq_true heq⟩)

theorem mem_owners_of_ne_nil (h : attemptsOf rows jobID ≠ []) :
    jobID ∈ (rows.map AttemptRow.jobID).dedup := by
  rw [List.mem_dedup]
  by_contra habsent
  exact h (attemptsOf_eq_nil habsent)

theorem settles_of_silent {attempts : List AttemptRow}
    (h : (analyzeJobAttempts jobs completions jobID attempts).Silent)
    (hjob : jobs.get? jobID = some job) (hlast : attempts.getLast? = some last)
    (hcompletion : completions.get? jobID = some completion) (hpos : 0 < completion.attemptNo) :
    Settles last completion := by
  simp only [analyzeJobAttempts, silent_bind, hjob, hlast, analyzeLastAttempt, hcompletion,
    silent_addIf] at h
  have hmatch := h.2.2.2.2
  rw [not_and_or, not_or, not_or, not_not, not_not, Bool.not_eq_false] at hmatch
  rcases hmatch with hzero | ⟨hnumber, hstate, hreceipt⟩
  · exact (hzero hpos).elim
  · exact ⟨hnumber, hstate, hreceipt⟩

theorem attempts_of_silent (h : (analyzeAttempts rows jobs completions).Silent) :
    AttemptsSound rows jobs completions := by
  simp only [analyzeAttempts, silent_bind, silent_pure, and_true, silent_forM, silent_addIf] at h
  obtain ⟨hrows, howners, hidle, hactive⟩ := h
  simp only [analyzeAttemptRow, analyzeReceipt, silent_bind, silent_addIf] at hrows
  refine ⟨?_, ?_, ?_, ?_, ?_⟩
  · intro attempt hattempt
    rw [not_not, activeAttempts, List.length_eq_zero_iff, List.filter_eq_nil_iff] at hactive
    exact Bool.eq_false_iff.mpr (hactive attempt hattempt)
  · intro attempt hattempt
    have hpositive := (hrows attempt hattempt).2.2.1
    omega
  · intro attempt hattempt
    have hpartial := (hrows attempt hattempt).2.2.2.2.2.2.1.2.1
    omega
  · intro jobID
    by_cases hnil : attemptsOf rows jobID = []
    · rw [hnil]
      exact ⟨by simp, List.IsChain.nil⟩
    · have hgroup := howners jobID (mem_owners_of_ne_nil hnil)
      rw [analyzeJobAttempts, silent_bind] at hgroup
      exact fenced_of_silent hgroup.1
  · intro jobID job completion hjob hcompletion heq hpos
    have hnil : attemptsOf rows jobID ≠ [] := by
      intro hnil
      have hfence := hidle (jobID, job) ((Table.mem_rows_iff _ _ _).mpr hjob)
      simp only [hnil, true_and] at hfence
      omega
    obtain ⟨last, hlast⟩ := Option.isSome_iff_exists.mp (List.getLast?_isSome.mpr hnil)
    exact ⟨last, hlast, settles_of_silent (howners jobID (mem_owners_of_ne_nil hnil)) hjob hlast
      hcompletion hpos⟩

end Attempts

section Events

variable {rows : List EventRow} {jobs : Jobs}

structure LogSound (job : JobRow) (events : List EventRow) : Prop where
  versions : ∀ (place : Nat) (event : EventRow), events[place]? = some event →
    event.stateVersion = place + 1
  admitted : ∀ event, events[0]? = some event → event.type = "job_admitted"
  allowed : events.IsChain fun before event =>
    allowedTransition before.state event.state event.type = true
  once : (events.filter fun event => event.type = "job_admitted").length = 1
  folded : ∀ last, events.getLast? = some last →
    last.state = job.state ∧ last.stateVersion = job.stateVersion

theorem silent_analyzeJobEvents :
    (analyzeJobEvents jobID job events).Silent ↔ LogSound job events := by
  rw [analyzeJobEvents, silent_bind, silent_zipIdx, silent_bind, silent_addIf, not_not]
  constructor
  · rintro ⟨hevents, honce, hlast⟩
    simp only [analyzeEvent, silent_bind, silent_addIf, not_not] at hevents
    refine ⟨fun place event hevent => (hevents place event hevent).1, ?_, ?_, honce, ?_⟩
    · intro event hevent
      simpa using (hevents 0 event hevent).2
    · rw [isChain_iff_places]
      intro place before event hbefore hevent
      have hallowed := (hevents (place + 1) event hevent).2
      simpa [hbefore] using hallowed
    · intro last hfound
      simp only [hfound, silent_addIf, not_or, not_not] at hlast
      exact hlast
  · intro h
    refine ⟨?_, h.once, ?_⟩
    · intro place event hevent
      simp only [analyzeEvent, silent_bind, silent_addIf, not_not]
      refine ⟨h.versions place event hevent, ?_⟩
      cases place with
      | zero => simpa using h.admitted event hevent
      | succ place =>
        have hlt : place < events.length := by
          have := (List.getElem?_eq_some_iff.mp hevent).1
          omega
        have hbefore := List.getElem?_eq_getElem hlt
        have hallowed := isChain_iff_places.mp h.allowed place _ event hbefore hevent
        simp [hbefore, hallowed]
    · cases hfound : events.getLast? with
      | none => exact silent_pure ()
      | some last =>
        obtain ⟨hstate, hversion⟩ := h.folded last hfound
        simp [hstate, hversion]

structure EventsSound (rows : List EventRow) (jobs : Jobs) : Prop where
  sequence : ∀ (place : Nat) (event : EventRow), rows[place]? = some event →
    event.sequence = place + 1
  timed : ∀ event ∈ rows, 0 < event.occurredAt
  payloads : ∀ event ∈ rows, JsonSyntax.valid event.payloadJSON = true
  owned : ∀ event ∈ rows, (jobs.get? event.jobID).isSome = true
  logged : ∀ jobID job, jobs.get? jobID = some job →
    eventsOf rows jobID ≠ [] ∧ LogSound job (eventsOf rows jobID)

theorem silent_analyzeEvents : (analyzeEvents rows jobs).Silent ↔ EventsSound rows jobs := by
  rw [analyzeEvents, silent_bind, silent_zipIdx, silent_bind, silent_forM, silent_forM]
  simp only [silent_bind, silent_addIf, not_not, not_or, Bool.not_eq_false, List.mem_dedup,
    List.forall_mem_map]
  constructor
  · rintro ⟨hrows, howned, hmissing⟩
    have hplaced : ∀ event ∈ rows, 0 < event.occurredAt ∧
        JsonSyntax.valid event.payloadJSON = true := by
      intro event hevent
      obtain ⟨place, hplace⟩ := List.mem_iff_getElem?.mp hevent
      have hrow := (hrows place event hplace).2
      exact ⟨not_le.mp hrow.1, hrow.2⟩
    refine ⟨fun place event hevent => (hrows place event hevent).1,
      fun event hevent => (hplaced event hevent).1, fun event hevent => (hplaced event hevent).2,
      ?_, ?_⟩
    · intro event hevent
      have hgroup := howned event hevent
      cases hjob : jobs.get? event.jobID with
      | none => simp [hjob] at hgroup
      | some job => rfl
    · intro jobID job hjob
      have hne := hmissing jobID ((Table.mem_keys_iff _ _).mpr ⟨job, hjob⟩)
      refine ⟨hne, ?_⟩
      obtain ⟨event, hevent⟩ := List.exists_mem_of_ne_nil _ hne
      obtain ⟨hmem, hid⟩ := List.mem_filter.mp hevent
      have hgroup := howned event hmem
      rw [of_decide_eq_true hid, hjob] at hgroup
      exact silent_analyzeJobEvents.mp hgroup
  · intro h
    refine ⟨?_, ?_, ?_⟩
    · intro place event hevent
      have hmem := List.mem_of_getElem? hevent
      exact ⟨h.sequence place event hevent, not_le.mpr (h.timed event hmem), h.payloads event hmem⟩
    · intro event hevent
      obtain ⟨job, hjob⟩ := Option.isSome_iff_exists.mp (h.owned event hevent)
      rw [hjob]
      exact silent_analyzeJobEvents.mpr (h.logged event.jobID job hjob).2
    · intro jobID hmem
      obtain ⟨job, hjob⟩ := (Table.mem_keys_iff _ _).mp hmem
      exact (h.logged jobID job hjob).1

end Events

section Slots

variable {tenants : List TenantRow} {queues : List QueueRow} {jobs : Jobs}

theorem slotsHeld_eq_zero (h : ∀ jobID job, jobs.get? jobID = some job → holdsSlots job = false)
    (owner : JobRow → Bool) : slotsHeld jobs owner = 0 := by
  have hnone : (jobs.rows.filter fun entry => holdsSlots entry.2 && owner entry.2) = [] := by
    rw [List.filter_eq_nil_iff]
    intro entry hentry
    rw [h entry.1 entry.2 ((Table.mem_rows_iff _ _ _).mp hentry)]
    exact Bool.false_ne_true
  rw [slotsHeld, hnone]
  decide

structure SlotsSound (tenants : List TenantRow) (queues : List QueueRow) (jobs : Jobs) :
    Prop where
  tenants : ∀ tenant ∈ tenants,
    tenant.activeSlots = slotsHeld jobs fun job => job.tenantID = tenant.tenantID
  queues : ∀ queue ∈ queues, queue.activeSlots =
    slotsHeld jobs fun job => queueKey job = manifestKey queue.tenantID queue.queue

theorem slots_of_silent (h : (analyzeSlots tenants queues jobs).Silent) :
    SlotsSound tenants queues jobs := by
  simp only [analyzeSlots, silent_bind, silent_pure, and_true, silent_forM, silent_addIf,
    not_not] at h
  obtain ⟨htenants, _, hqueues, _⟩ := h
  exact ⟨fun tenant hmem => (htenants tenant hmem).1, fun queue hmem => (hqueues queue hmem).2⟩

end Slots

end RailYard.Oracle
