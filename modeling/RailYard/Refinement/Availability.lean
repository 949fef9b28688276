import RailYard.Lifecycle.Availability
import RailYard.Refinement.Offers

/-! When jobs become available: the time that a submission asks for, the row it
leaves, and the leases that are granted for the first attempt. -/
namespace RailYard.Refinement
open Library Library.Transaction Domain Store
open Lifecycle Relation

def startTime (requested now : Time) : Time := if requested = zeroTime then now else requested

theorem admitJob_row (h : admitJob options storage spec actor entropy now db = .ok job db') :
    job.availableAt = startTime spec.availableAt now ∧ db.jobs.get? job.id = none ∧
      db'.jobs = db.jobs.insert job.id (Job.toRow job) := by
  obtain ⟨_, _, h⟩ := lift_bind h
  replace h := query_bind h
  obtain ⟨check, _, h⟩ := lift_bind h
  obtain ⟨_, db1, hadmission, h⟩ := bind_ok h
  obtain ⟨_, hyard1, _⟩ := ensureAdmission_ok anyPolicy hadmission
  obtain ⟨_, db2, hqueue, h⟩ := bind_ok h
  obtain ⟨_, _, _, hyard2⟩ := ensureQueue_ok hqueue
  obtain ⟨seq, db3, hseq, h⟩ := bind_ok h
  obtain ⟨hyard3, _⟩ := readySeqIf_ok hseq
  have hjobs3 : (yardOf db3).jobs = (yardOf db).jobs := by rw [hyard3, hyard2, hyard1]
  obtain ⟨_, db4, hinsert, h⟩ := bind_ok h
  obtain ⟨_, hfresh, hyard4⟩ := insertJob_ok hinsert
  obtain ⟨_, db5, hedges, h⟩ := bind_ok h
  have hyard5 := insertDependencies_ok (fun parent => (_, parent)) hedges
  obtain ⟨_, db6, hevent, h⟩ := bind_ok h
  have hyard6 := addEvent_ok hevent
  obtain ⟨_, db7, hdead, h⟩ := bind_ok h
  obtain ⟨rfl, rfl⟩ := pure_ok h
  have hjobs : (yardOf db7).jobs = (yardOf db4).jobs := by
    rcases onlyIf_ok hdead with ⟨_, hdead⟩ | ⟨_, rfl⟩
    · obtain ⟨_, db8, hcompletion, hletter⟩ := bind_ok hdead
      rw [insertDeadLetter_ok hletter, (insertCanonicalCompletion_ok hcompletion).2, hyard6, hyard5]
    · rw [hyard6, hyard5]
  rw [hjobs3] at hfresh hyard4
  refine ⟨?_, hfresh, ?_⟩
  · unfold Job.failedUpstream
    split <;> rfl
  · change (yardOf db7).jobs = _
    rw [hjobs, hyard4]
    rfl

theorem submitJob_row (h : submitJob options submission entropy now db = .ok (job, false) db') :
    job.availableAt = startTime submission.job.availableAt now ∧ db.jobs.get? job.id = none ∧
      db'.jobs = db.jobs.insert job.id (Job.toRow job) := by
  obtain ⟨_, _, h⟩ := lift_bind h
  rcases readIdempotency_bind h with ⟨_, _, h⟩ | ⟨_, h⟩
  · obtain ⟨heq, _⟩ := pure_ok h
    cases heq
  · obtain ⟨admitted, _, hadmit, h⟩ := bind_ok h
    obtain ⟨_, recorded, hrecord, h⟩ := bind_ok h
    obtain ⟨heq, rfl⟩ := pure_ok h
    cases heq
    have hjobs : recorded.jobs = _ := congrArg Yard.jobs (yard_recordIdempotency hrecord)
    obtain ⟨htime, hrows⟩ := admitJob_row hadmit
    rw [hjobs]
    exact ⟨htime, hrows⟩

section Workflow

variable {index : Nat}

theorem admitNodes_available {jobs : List Job}
    (h : admitNodes tenantID now entropy index nodes db = .ok jobs db') :
    jobs.map Job.availableAt = nodes.map fun node => startTime node.1.availableAt now := by
  induction nodes generalizing index db jobs with
  | nil =>
    obtain ⟨rfl, _⟩ := pure_ok h
    rfl
  | cons node rest ih =>
    obtain ⟨job, db1, hjob, h⟩ := bind_ok h
    obtain ⟨others, db2, hothers, h⟩ := bind_ok h
    obtain ⟨rfl, rfl⟩ := pure_ok h
    obtain ⟨_, _, _, hjob⟩ := bind_ok hjob
    obtain ⟨_, _, _, hjob⟩ := bind_ok hjob
    obtain ⟨_, _, _, hjob⟩ := bind_ok hjob
    obtain ⟨rfl, _⟩ := pure_ok hjob
    rw [List.map_cons, List.map_cons, ih hothers]
    rfl

theorem validateWorkflow_available (h : validateWorkflow options tenantID nodes = .ok resolved) :
    resolved.map (fun node => node.1.availableAt) = nodes.map fun node => node.job.availableAt := by
  unfold validateWorkflow at h
  split at h
  · cases h
  · obtain ⟨_, _, h⟩ := except_bind_ok h
    obtain ⟨found, hfound, h⟩ := except_bind_ok h
    split at h
    · cases h
    · cases h
      clear * - hfound
      generalize nodes.map WorkflowNode.key = keys at hfound
      induction nodes generalizing resolved with
      | nil =>
        cases hfound
        rfl
      | cons node rest ih =>
        obtain ⟨result, hresult, hfound⟩ := except_bind_ok hfound
        obtain ⟨others, hothers, hfound⟩ := except_bind_ok hfound
        cases hfound
        obtain ⟨_, _, hresult⟩ := except_bind_ok hresult
        obtain ⟨_, _, hresult⟩ := except_bind_ok hresult
        cases hresult
        rw [List.map_cons, List.map_cons, ih hothers]
        rfl

theorem admitWorkflow_rows {jobs : List Job}
    (h : admitWorkflow options storage tenantID nodes actor entropy now db = .ok jobs db') :
    jobs.map Job.availableAt = nodes.map (fun node => startTime node.job.availableAt now) ∧
      ∀ job ∈ jobs, db'.jobs.get? job.id = some (Job.toRow job) := by
  obtain ⟨resolved, db1, db2, hvalidate, _, hnodes, hyard⟩ := admitWorkflow_enrols h
  have enrolled := admitNodes_ok hnodes
  refine ⟨?_, fun job hjob => ?_⟩
  · rw [admitNodes_available hnodes]
    have htimes := congrArg (List.map fun time => startTime time now)
      (validateWorkflow_available hvalidate)
    rwa [List.map_map, List.map_map] at htimes
  · change (yardOf db').jobs.get? job.id = _
    rw [hyard, enrolled.yard_eq]
    refine Table.get?_insertAll_new _ ?_ (List.mem_map.mpr ⟨job, hjob, rfl⟩)
      (enrolled.fresh job hjob)
    rw [List.map_map]
    exact enrolled.nodup

theorem submitWorkflow_rows {jobs : List Job}
    (h : submitWorkflow options submission entropy now db = .ok (jobs, false) db') :
    jobs.map Job.availableAt =
        submission.nodes.map (fun node => startTime node.job.availableAt now) ∧
      ∀ job ∈ jobs, db'.jobs.get? job.id = some (Job.toRow job) := by
  obtain ⟨_, _, h⟩ := lift_bind h
  rcases readIdempotency_bind h with ⟨_, _, h⟩ | ⟨_, h⟩
  · obtain ⟨heq, _⟩ := pure_ok h
    cases heq
  · obtain ⟨admitted, _, hadmit, h⟩ := bind_ok h
    obtain ⟨_, recorded, hrecord, h⟩ := bind_ok h
    obtain ⟨heq, rfl⟩ := pure_ok h
    cases heq
    have hjobs : recorded.jobs = _ := congrArg Yard.jobs (yard_recordIdempotency hrecord)
    rw [hjobs]
    exact admitWorkflow_rows hadmit

end Workflow

theorem Grants.attemptNo_lt (h : Grants policy sha256 leases yard yard') (hlease : lease ∈ leases)
    (hrow : yard.jobs.get? lease.jobID = some row) :
    row.attemptNo < lease.attemptNo := by
  induction h generalizing row with
  | nil => cases hlease
  | cons head tail ih =>
    obtain ⟨move, _, hvalid, rfl, hid, hstate, hnumber, _⟩ := head.exists_move
    rcases List.mem_cons.mp hlease with rfl | hlease
    · have hfound := hvalid.found
      rw [hid, hrow, Option.some.injEq] at hfound
      rw [hfound, ← hnumber]
      cases hvalid.kind with
      | lease _ _ _ _ attemptNo => omega
      | start _ _ running =>
        rw [hstate] at running
        cases running
      | close _ _ released =>
        rw [hstate] at released
        cases released
      | ready _ pending =>
        rw [hstate] at pending
        cases pending
      | override _ target =>
        rw [hstate] at target
        rcases target with target | target <;> cases target
      | cascade _ _ dead =>
        rw [hstate] at dead
        cases dead
    · obtain ⟨later, hlater, hle⟩ := hvalid.evolves.jobs _ _ hrow
      exact hle.attemptNo.trans_lt (ih hlease hlater)

theorem punctual_of_steps {id : String} (h : Punctual id time yard) (coherent : Coherent yard)
    (steps : ReflTransGen (Step policy) yard yard') : Punctual id time yard' := by
  refine (preserved (motive := fun after => Coherent after ∧ Punctual id time after) ?_
    (micros_of_steps steps) ⟨coherent, h⟩).2
  intro before after ⟨hcoherent, hpunctual⟩ hmicro
  exact ⟨hcoherent.micro _ _ hmicro, hpunctual.micro hcoherent.fences hmicro⟩

end RailYard.Refinement
