import RailYard.Evidence.Reconcile

/-! What a reconciliation that passed says about the records and the rows. -/
namespace RailYard.Evidence
open Library Library.Findings Domain

@[simp] theorem silent_note (concern : Concern) (text : String) : ¬(note concern text).Silent :=
  silent_report _

@[simp] theorem silent_noteIf {condition : Prop} [Decidable condition] {text : String} :
    (noteIf condition concern text).Silent ↔ ¬condition := silent_reportIf

section Headings

variable {found : List (Concern × String)} {concern : Concern}

theorem sorted_eq_nil : (sorted found concern).length = 0 ↔
    ∀ finding ∈ found, finding.1 ≠ concern := by
  rw [sorted, List.length_insertionSort, List.length_map, List.length_eq_zero_iff,
    List.filter_eq_nil_iff]
  simp

theorem compacted_eq_nil : (compacted found concern).length = 0 ↔
    ∀ finding ∈ found, finding.1 ≠ concern := by
  rw [compacted, List.length_eq_zero_iff, List.dedup_eq_nil, ← List.length_eq_zero_iff,
    sorted_eq_nil]

end Headings

section Passed

variable {sha256 : Hash} {manifest : RunManifest} {submissions : List SubmissionSample}
  {drainSamples : List DrainSample} {snapshot : DatabaseSnapshot}

theorem silent_of_passed (h : reconciliationPassed
      (analyzeSnapshot sha256 manifest submissions drainSamples snapshot) = true) :
    let audit := analyzeAll sha256 manifest submissions drainSamples snapshot
    audit.Silent ∧ audit.value = snapshot.jobs.length ∧
      audit.value = snapshot.completions.length := by
  simp only [reconciliationPassed, analyzeSnapshot, Bool.and_eq_true, decide_eq_true_eq,
    sorted_eq_nil, compacted_eq_nil] at h
  obtain ⟨⟨⟨⟨⟨⟨⟨⟨⟨⟨⟨⟨⟨⟨⟨⟨⟨⟨⟨⟨_, _⟩, hjobs⟩, hcompletions⟩, _⟩, _⟩, _⟩, hactiveJob⟩,
    hactiveAttempt⟩, hlost⟩, horphan⟩, hduplicate⟩, hrepeated⟩, hunsuccessful⟩, hmaterial⟩,
    hattempt⟩, hevent⟩, hslot⟩, hintegrity⟩, hforeign⟩, hmanifest⟩ := h
  refine ⟨?_, of_decide_eq_true hjobs, of_decide_eq_true hcompletions⟩
  apply List.eq_nil_iff_forall_not_mem.mpr
  intro finding hmem
  cases hconcern : finding.1 with
  | lostJob => exact hlost finding hmem hconcern
  | orphanJob => exact horphan finding hmem hconcern
  | duplicateAccepted => exact hduplicate finding hmem hconcern
  | duplicateCompletion => exact hrepeated finding hmem hconcern
  | unsuccessfulJob => exact hunsuccessful finding hmem hconcern
  | activeJob => exact hactiveJob finding hmem hconcern
  | activeAttempt => exact hactiveAttempt finding hmem hconcern
  | materialization => exact hmaterial finding hmem hconcern
  | attempt => exact hattempt finding hmem hconcern
  | event => exact hevent finding hmem hconcern
  | slotReservation => exact hslot finding hmem hconcern
  | integrity => exact hintegrity finding hmem hconcern
  | foreignKey => exact hforeign finding hmem hconcern
  | manifest => exact hmanifest finding hmem hconcern

end Passed

section Loops

variable {submissions : List SubmissionSample} {accepted : Table String String}
  {jobs : Jobs} {rows : List DatabaseJob} {completions : List DatabaseCompletion}
  {attempts : List DatabaseAttempt} {events : List DatabaseEvent}

theorem value_accepted (ids : List String) :
    (ids.foldlM acceptSubmission .empty).value = Table.index id ids :=
  Table.value_filling (fun _ _ => rfl) ids

theorem value_jobs : (rows.foldlM (analyzeJob accepted) .empty).value =
    Table.index DatabaseJob.id rows :=
  Table.value_filling (fun _ _ => rfl) rows

theorem value_completions : (completions.foldlM (analyzeCompletion jobs) .empty).value =
    Table.index DatabaseCompletion.jobID completions :=
  Table.value_filling (fun _ _ => rfl) completions

theorem nodup_of_accepted {ids : List String} (h : (ids.foldlM acceptSubmission .empty).Silent) :
    ids.Nodup := by
  rw [Table.silent_filling (fun _ _ => rfl)] at h
  simp only [acceptSubmission, silent_bind, silent_noteIf, silent_pure, and_true,
    Bool.not_eq_true, Option.isSome_eq_false_iff, Option.isNone_iff_eq_none] at h
  simpa using Table.nodup_of_fresh h

theorem accepted_of_jobs (h : (rows.foldlM (analyzeJob accepted) .empty).Silent) :
    ∀ job ∈ rows, accepted.get? job.id ≠ none := by
  rw [Table.silent_filling (fun _ _ => rfl)] at h
  simp only [analyzeJob, silent_bind, silent_noteIf, silent_pure, and_true,
    Option.isNone_iff_eq_none] at h
  intro job hjob
  obtain ⟨before, after, heq⟩ := List.append_of_mem hjob
  exact (h before job after heq).1

theorem materialized_of_completions
    (h : (completions.foldlM (analyzeCompletion jobs) .empty).Silent) :
    ∀ completion ∈ completions, ∃ job, jobs.get? completion.jobID = some job ∧
      job.state = completion.state := by
  rw [Table.silent_filling (fun _ _ => rfl)] at h
  simp only [analyzeCompletion, silent_bind, silent_pure, and_true] at h
  intro completion hmem
  obtain ⟨before, after, heq⟩ := List.append_of_mem hmem
  have hturn := h before completion after heq
  unfold analyzeMaterialized at hturn
  cases hjob : jobs.get? completion.jobID with
  | none =>
    rw [hjob] at hturn
    exact (silent_note _ _ hturn).elim
  | some job =>
    rw [hjob, silent_noteIf, not_not] at hturn
    exact ⟨job, rfl, hturn⟩

theorem succeeded_of_outcome (h : (analyzeOutcome jobs table jobID).Silent)
    (hrow : jobs.get? jobID ≠ none) :
    ∃ completion, table.get? jobID = some completion ∧ completion.state = "SUCCEEDED" := by
  unfold analyzeOutcome at h
  cases hfound : table.get? jobID with
  | none =>
    rw [hfound, silent_noteIf] at h
    exact (h (Option.isSome_iff_ne_none.mpr hrow)).elim
  | some completion =>
    rw [hfound, silent_noteIf, not_not] at h
    exact ⟨completion, rfl, h⟩

theorem nodup_of_counts (h : ∀ completion ∈ completions,
    ¬completionCount completions completion.jobID > 1) :
    (completions.map DatabaseCompletion.jobID).Nodup := by
  rw [List.nodup_iff_count_le_one]
  intro jobID
  by_cases hmem : jobID ∈ completions.map DatabaseCompletion.jobID
  · obtain ⟨completion, hcompletion, rfl⟩ := List.mem_map.mp hmem
    have hcount := h completion hcompletion
    rw [completionCount, ← List.countP_eq_length_filter] at hcount
    rw [List.count, List.countP_map]
    refine le_of_eq_of_le (List.countP_congr fun other _ => ?_) (not_lt.mp hcount)
    simp
  · rw [List.count_eq_zero_of_not_mem hmem]
    exact Nat.zero_le 1

def attemptsOf (attempts : List DatabaseAttempt) (jobID : String) : List DatabaseAttempt :=
  attempts.filter fun attempt => attempt.jobID = jobID

def Increases (before attempt : DatabaseAttempt) : Prop :=
  before.attemptNo < attempt.attemptNo ∧ before.generation < attempt.generation

theorem increasing_of_attempts (h : (analyzeAttempts attempts).Silent) (jobID : String) :
    (attemptsOf attempts jobID).Pairwise Increases := by
  have htrans : IsTrans DatabaseAttempt Increases :=
    ⟨fun _ _ _ hfirst hsecond => ⟨hfirst.1.trans hsecond.1, hfirst.2.trans hsecond.2⟩⟩
  rw [analyzeAttempts, silent_bind, Table.silent_filling (fun _ _ => rfl)] at h
  replace h := h.1
  simp only [analyzeAttempt, silent_bind, silent_noteIf, silent_pure, and_true, not_le] at h
  apply List.IsChain.pairwise
  induction attempts using List.reverseRecOn with
  | nil => exact List.IsChain.nil
  | append_singleton attempts last ih =>
    have hprefix := ih fun before row after heq =>
      h before row (after ++ [last]) (by rw [heq, List.append_assoc, List.cons_append])
    obtain ⟨hnumber, hgeneration, _⟩ := h attempts last [] rfl
    rw [attemptsOf, List.filter_append]
    by_cases hjob : last.jobID = jobID
    · rw [List.filter_singleton, decide_eq_true hjob]
      refine hprefix.append (List.isChain_singleton _) ?_
      intro before hbefore found hfound
      rw [Table.get?_index_eq_getLast?, hjob] at hnumber hgeneration
      rw [show (attempts.filter fun attempt => attempt.jobID = jobID).getLast? = some before
        from hbefore] at hnumber hgeneration
      obtain rfl : last = found := by simpa using hfound
      exact ⟨hnumber, hgeneration⟩
    · rw [List.filter_singleton, decide_eq_false hjob, cond_false, List.append_nil]
      exact hprefix

def eventsOf (events : List DatabaseEvent) (jobID : String) : List DatabaseEvent :=
  events.filter fun event => event.jobID = jobID

theorem folded_of_events (h : (analyzeEvents events jobs).Silent)
    (hjob : jobs.get? jobID = some job) (hstate : job.state ≠ "") :
    ∃ last, (eventsOf events jobID).getLast? = some last ∧ last.state = job.state ∧
      last.stateVersion = job.stateVersion := by
  simp only [analyzeEvents, silent_bind, silent_forM] at h
  have hfold := h.2.2 (jobID, job) ((Table.mem_rows_iff _ _ _).mpr hjob)
  rw [silent_noteIf, Table.value_filling (fun _ _ => rfl), not_or, not_not, not_not, lastState,
    lastVersion, Table.get?_index_eq_getLast?] at hfold
  change ((eventsOf events jobID).getLast?.map _).getD _ = _ ∧
    ((eventsOf events jobID).getLast?.map _).getD _ = _ at hfold
  cases hlast : (eventsOf events jobID).getLast? with
  | none =>
    rw [hlast] at hfold
    exact (hstate hfold.1.symm).elim
  | some last =>
    rw [hlast] at hfold
    exact ⟨last, rfl, hfold⟩

end Loops

section Balance

variable {sha256 : Hash} {manifest : RunManifest} {submissions : List SubmissionSample}
  {drainSamples : List DrainSample} {snapshot : DatabaseSnapshot}

abbrev jobsOf (snapshot : DatabaseSnapshot) : Jobs := Table.index DatabaseJob.id snapshot.jobs

abbrev completionsOf (snapshot : DatabaseSnapshot) : Completions :=
  Table.index DatabaseCompletion.jobID snapshot.completions

structure Balanced (manifest : RunManifest) (submissions : List SubmissionSample)
    (snapshot : DatabaseSnapshot) : Prop where
  declared : manifest.config.jobCount = submissions.length
  acceptedOnce : (acceptedIDs submissions).Nodup
  jobCount : snapshot.jobs.length = (acceptedIDs submissions).length
  jobs : ∀ jobID, jobID ∈ snapshot.jobs.map DatabaseJob.id ↔ jobID ∈ acceptedIDs submissions
  materialized : ∀ completion ∈ snapshot.completions, ∃ job,
    (jobsOf snapshot).get? completion.jobID = some job ∧ job.state = completion.state
  completionsOnce : (snapshot.completions.map DatabaseCompletion.jobID).Nodup
  outcome : ∀ jobID ∈ acceptedIDs submissions, ∃ completion,
    (completionsOf snapshot).get? jobID = some completion ∧ completion.state = "SUCCEEDED"
  attempts : (analyzeAttempts snapshot.attempts).Silent
  events : (analyzeEvents snapshot.events (jobsOf snapshot)).Silent

theorem balanced_of_passed (h : reconciliationPassed
      (analyzeSnapshot sha256 manifest submissions drainSamples snapshot) = true) :
    Balanced manifest submissions snapshot := by
  obtain ⟨hsilent, hjobCount, _⟩ := silent_of_passed h
  have hvalue : (analyzeAll sha256 manifest submissions drainSamples snapshot).value =
      ((acceptedIDs submissions).foldlM acceptSubmission .empty).value.keys.length := rfl
  simp only [analyzeAll, silent_bind, silent_forM, silent_pure, and_true, silent_noteIf,
    Option.isNone_iff_eq_none, value_accepted, value_jobs, value_completions] at hsilent
  obtain ⟨_, _, _, _, hmanifest, haccepted, hjobs, hlost, hcompletions, hcounts, houtcomes,
    hattempts, hevents⟩ := hsilent
  have honce := nodup_of_accepted haccepted
  have hkeys : (Table.index id (acceptedIDs submissions)).keys.Perm
      ((acceptedIDs submissions).map id) :=
    Table.keys_index_perm (by rwa [List.map_id])
  rw [hvalue, value_accepted, hkeys.length_eq, List.map_id] at hjobCount
  have hmem : ∀ jobID, jobID ∈ (Table.index id (acceptedIDs submissions)).keys ↔
      jobID ∈ acceptedIDs submissions := by
    intro jobID
    rw [hkeys.mem_iff, List.map_id]
  simp only [validateManifest, silent_bind, silent_noteIf, not_not] at hmanifest
  refine ⟨hmanifest.2.2.2.2.1, honce, hjobCount.symm, fun jobID => ?_,
    materialized_of_completions hcompletions, ?_, ?_, hattempts, hevents⟩
  · exact (Table.covered_iff (accepted_of_jobs hjobs) hlost jobID).trans
      (by rw [Table.isSome_index]; simp)
  · apply nodup_of_counts
    intro completion hmem
    apply hcounts
    rw [Table.mem_keys_iff, ← Option.isSome_iff_exists, Table.isSome_index]
    exact ⟨completion, hmem, rfl⟩
  · intro jobID hjobID
    exact succeeded_of_outcome (houtcomes jobID ((hmem jobID).mpr hjobID))
      (hlost jobID ((hmem jobID).mpr hjobID))

section Balanced

variable (h : Balanced manifest submissions snapshot)
include h

theorem Balanced.jobsOnce :
    (snapshot.jobs.map DatabaseJob.id).Nodup := by
  have hsubperm : (acceptedIDs submissions).Subperm (snapshot.jobs.map DatabaseJob.id) :=
    List.subperm_of_subset h.acceptedOnce fun jobID hmem => (h.jobs jobID).mpr hmem
  have hlength : (snapshot.jobs.map DatabaseJob.id).length ≤ (acceptedIDs submissions).length := by
    rw [List.length_map, h.jobCount]
  exact (hsubperm.perm_of_length_le hlength).nodup_iff.mp h.acceptedOnce

theorem Balanced.completions (jobID : String) :
    jobID ∈ snapshot.completions.map DatabaseCompletion.jobID ↔
      jobID ∈ acceptedIDs submissions := by
  constructor
  · intro hmem
    obtain ⟨completion, hcompletion, rfl⟩ := List.mem_map.mp hmem
    obtain ⟨job, hjob, _⟩ := h.materialized completion hcompletion
    obtain ⟨hrow, hid⟩ := Table.mem_of_get?_index hjob
    exact (h.jobs _).mp (List.mem_map.mpr ⟨job, hrow, hid⟩)
  · intro hmem
    obtain ⟨completion, hcompletion, _⟩ := h.outcome jobID hmem
    obtain ⟨hrow, hid⟩ := Table.mem_of_get?_index hcompletion
    exact List.mem_map.mpr ⟨completion, hrow, hid⟩

theorem Balanced.succeeded
    (hmem : completion ∈ snapshot.completions) :
    completion.state = "SUCCEEDED" := by
  have haccepted := (h.completions completion.jobID).mp (List.mem_map_of_mem hmem)
  obtain ⟨found, hfound, hstate⟩ := h.outcome completion.jobID haccepted
  rw [Table.get?_index h.completionsOnce hmem, Option.some.injEq] at hfound
  rw [hfound, hstate]

theorem Balanced.state (hmem : job ∈ snapshot.jobs) :
    job.state = "SUCCEEDED" := by
  have hjob := (h.completions job.id).mpr ((h.jobs job.id).mp (List.mem_map_of_mem hmem))
  obtain ⟨completion, hcompletion, hid⟩ := List.mem_map.mp hjob
  obtain ⟨found, hfound, hstate⟩ := h.materialized completion hcompletion
  rw [hid, Table.get?_index h.jobsOnce hmem, Option.some.injEq] at hfound
  rw [hfound, hstate, h.succeeded hcompletion]

end Balanced

end Balance

end RailYard.Evidence
