import RailYard.Refinement.Grants

/-! Calls on leases that their callers do not hold. Such a call writes nothing,
alone or in a batch, and a lease that was lost once is never held again. -/
namespace RailYard.Refinement
open Library.Transaction Domain Store

def Held (sha256 : Hash) (db : Database) (now : Time) (workerID : String) (ref : LeaseRef) : Prop :=
  ∃ attempt job, Usable sha256 workerID ref now db attempt job ∧ attempt.state.isOpen = true ∧
    job.state.leased = true

theorem inert_markRunningTx (h : ¬Held sha256 db now workerID ref) :
    Inert (markRunningTx sha256 workerID ref now) db := by
  rcases markRunningTx_cases sha256 workerID ref now db with
    herror | hsame | ⟨attempt, job, husable, hleased, hscheduled, _⟩
  · exact .inr ⟨_, herror⟩
  · exact .inl ⟨(), hsame⟩
  · exact (h ⟨attempt, job, husable, by rw [hleased]; rfl, by rw [hscheduled]; rfl⟩).elim

theorem inert_applyCompletionTx (h : ¬Held sha256 db now completion.workerID completion.toLeaseRef)
    :
    Inert (applyCompletionTx sha256 completion now) db := by
  rcases applyCompletionTx_cases sha256 completion now db with
    hsame | herror | ⟨attempt, job, _, husable, _, hopen, hleased, _⟩
  · exact .inl hsame
  · exact .inr herror
  · exact (h ⟨attempt, job, husable, hopen, hleased⟩).elim

theorem inert_heartbeatOne (h : ¬Held sha256 db now workerID ref) :
    Inert (heartbeatOne sha256 workerID now requestedExpiry ref) db := by
  unfold heartbeatOne Inert
  rw [bind_run (select_run ..), bind_run (update_run_refused _ fun attempt hattempt => ?_)]
  · exact .inl ⟨_, rfl⟩
  · refine Bool.eq_false_iff.mpr fun hguard => h ?_
    cases hjob : (jobs.read db).get? ref.jobID with
    | none =>
      rw [hjob, Bool.and_false] at hguard
      cases hguard
    | some job =>
      rw [hjob] at hguard
      simp only [Bool.and_eq_true, decide_eq_true_eq] at hguard
      obtain ⟨⟨halive, hopen⟩, hfenced, hleased⟩ := hguard
      exact ⟨attempt, job, ⟨hattempt, hjob, hfenced, halive⟩, hopen, hleased⟩

theorem inert_batchTx {α β : Type} {context : String} {body : α → Tx β} {items : List α}
    {index : Nat} (h : ∀ item ∈ items, Inert (body item) db) :
    Inert (batchTx context body index items) db := by
  induction items generalizing index with
  | nil => exact .pure []
  | cons item rest ih =>
    have hrest : ∀ {index}, Inert (batchTx context body index rest) db :=
      ih fun other hother => h other (List.mem_cons_of_mem _ hother)
    refine .bind (h item (List.mem_cons_self ..)).attempt fun result => ?_
    cases result with
    | ok value => exact .bind hrest fun _ => .pure _
    | error error => exact .bind (.require _ _) fun _ => .bind hrest fun _ => .pure _

theorem inert_heartbeat (h : ∀ ref ∈ refs, ¬Held sha256 db now workerID ref) :
    Inert (heartbeat sha256 workerID refs now leaseTTL) db := by
  unfold heartbeat
  induction refs with
  | nil => exact .pure []
  | cons ref rest ih =>
    exact .bind (inert_heartbeatOne (h ref (List.mem_cons_self ..))) fun _ =>
      .bind (ih fun other hother => h other (List.mem_cons_of_mem _ hother)) fun _ => .pure _

def presented : Op → Option (List (String × LeaseRef))
  | .markRunning workerID ref => some [(workerID, ref)]
  | .markRunningBatch workerID refs => some (refs.map fun ref => (workerID, ref))
  | .heartbeat workerID refs _ => some (refs.map fun ref => (workerID, ref))
  | .complete completion => some [(completion.workerID, completion.toLeaseRef)]
  | .completeBatch completions =>
    some (completions.map fun completion => (completion.workerID, completion.toLeaseRef))
  | _ => none

theorem inert_program {op : Op} (hop : presented op = some pairs)
    (h : ∀ pair ∈ pairs, ¬Held env.sha256 db now pair.1 pair.2) :
    Inert (op.program env options now) db := by
  cases op with
  | markRunning workerID ref =>
    cases hop
    exact .bind (inert_markRunningTx (h _ (List.mem_singleton_self _))) fun _ => .pure _
  | markRunningBatch workerID refs =>
    cases hop
    refine .bind (inert_batchTx fun ref hmem => ?_) fun _ => .pure _
    exact inert_markRunningTx (h _ (List.mem_map_of_mem hmem))
  | heartbeat workerID refs leaseTTL =>
    cases hop
    exact .bind (inert_heartbeat fun ref hmem => h _ (List.mem_map_of_mem hmem)) fun _ => .pure _
  | complete completion =>
    cases hop
    exact .bind (inert_applyCompletionTx (h _ (List.mem_singleton_self _))) fun _ => .pure _
  | completeBatch completions =>
    cases hop
    refine .bind (inert_batchTx fun completion hmem => ?_) fun _ => .pure _
    exact inert_applyCompletionTx (h _ (List.mem_map_of_mem hmem))
  | _ => cases hop

theorem gated_of_presented (h : presented op = some pairs) : op.gated = true := by
  cases op <;> first | rfl | cases h

theorem step_inert (hop : presented call.op = some pairs)
    (h : ∀ pair ∈ pairs, ¬Held env.sha256 store.db (callTime store call) pair.1 pair.2) :
    (step env store call).2.db = store.db := by
  rcases step_cases env store call with hsame | ⟨now, reply, htime, _, hrun⟩
  · exact hsame
  · rw [← htime (gated_of_presented hop)] at h
    rcases inert_program hop h with ⟨_, hinert⟩ | ⟨_, hinert⟩
    · rw [hinert, EStateM.Result.ok.injEq] at hrun
      exact hrun.2.symm
    · rw [hinert] at hrun
      cases hrun

theorem runCalls_inert (h : ∀ call ∈ calls, ∃ pairs, presented call.op = some pairs ∧
      ∀ pair ∈ pairs, ∀ now, ¬Held env.sha256 store.db now pair.1 pair.2) :
    (runCalls env store calls).db = store.db := by
  induction calls generalizing store with
  | nil => rfl
  | cons call rest ih =>
    obtain ⟨pairs, hop, hpairs⟩ := h call (List.mem_cons_self ..)
    have hfirst : (step env store call).2.db = store.db :=
      step_inert hop fun pair hpair => hpairs pair hpair _
    refine (ih fun other hother => ?_).trans hfirst
    rw [hfirst]
    exact h other (List.mem_cons_of_mem _ hother)

theorem Held.holds (h : Held sha256 db now workerID ref) :
    (yardOf db).Holds ref.jobID ref.attemptNo := by
  obtain ⟨attempt, job, husable, _, hleased⟩ := h
  have hfenced := husable.fenced
  unfold fenced at hfenced
  simp only [Bool.and_eq_true, decide_eq_true_eq] at hfenced
  exact ⟨job, husable.current, hleased, hfenced.1.2⟩

def latestGrant (grants : List Lease) (id : String) : Option Lease :=
  grants.reverse.find? fun lease => lease.jobID = id

theorem Recorded.latest (h : Recorded sha256 grants yard) (hlease : lease ∈ grants)
    (hrow : yard.jobs.get? lease.jobID = some row) (hnumber : lease.attemptNo = row.attemptNo) :
    latestGrant grants lease.jobID = some lease := by
  cases hfind : latestGrant grants lease.jobID with
  | none =>
    have hall := List.find?_eq_none.mp hfind lease (List.mem_reverse.mpr hlease)
    simp at hall
  | some found =>
    obtain ⟨hjob, before, after, hsplit, hbefore⟩ := List.find?_eq_some_iff_append.mp hfind
    rw [decide_eq_true_eq] at hjob
    have hmem := List.mem_reverse.mpr hlease
    rw [hsplit, List.mem_append, List.mem_cons] at hmem
    rcases hmem with hmem | rfl | hmem
    · have hother := hbefore lease hmem
      simp at hother
    · rfl
    · have hascending := List.pairwise_reverse.mpr h.ascending
      rw [hsplit, List.pairwise_append, List.pairwise_cons] at hascending
      have hless := hascending.2.1.1 lease hmem hjob.symm
      have hfound : found ∈ grants := by
        rw [← List.mem_reverse, hsplit]
        exact List.mem_append_right _ (List.mem_cons_self ..)
      obtain ⟨row', hrow', hle⟩ := h.bound found hfound
      rw [hjob, hrow, Option.some.injEq] at hrow'
      subst hrow'
      omega

end RailYard.Refinement
