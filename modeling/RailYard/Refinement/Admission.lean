import RailYard.Refinement.Abstraction
import RailYard.Store.Submissions

/-! Admission as one batch of new jobs, behind the rows of tenants and queues
that it opens on the way. -/
namespace RailYard.Refinement
open Library Library.Transaction Domain Store
open Lifecycle Relation

structure Checked (jobs : Table String JobRow) (tenantID : String) (check : DependencyCheck) :
    Prop where
  exist : ∀ id ∈ check.dependencies, ∃ parent, jobs.get? id = some parent ∧
    parent.tenantID = tenantID
  failed : ∀ id ∈ check.dependencies, ∀ parent, jobs.get? id = some parent →
    parent.state.unsuccessful = true → check.failed = true
  succeeded : check.allSucceeded = true → ∀ id ∈ check.dependencies, ∀ parent,
    jobs.get? id = some parent → parent.state = .succeeded
  exclusive : check.failed = true → check.allSucceeded = false

theorem Checked.checkDependency {check : DependencyCheck} (checked : Checked db.jobs tenantID check)
    (h : checkDependency db tenantID check dependencyID = .ok check') :
    Checked db.jobs tenantID check' := by
  unfold Store.checkDependency at h
  split at h
  · cases h
  · split at h
    · cases h
    · split at h
      · cases h
      · rename_i parent hparent
        split at h
        · cases h
        · rename_i htenant
          cases h
          have hcases : ∀ {id found}, id ∈ check.dependencies ++ [dependencyID] →
              db.jobs.get? id = some found →
              id ∈ check.dependencies ∨ found = parent := by
            intro id found hmem hfound
            rw [List.mem_append, List.mem_singleton] at hmem
            rcases hmem with hmem | rfl
            · exact .inl hmem
            · rw [hparent, Option.some.injEq] at hfound
              exact .inr hfound.symm
          constructor
          · intro id hmem
            rw [List.mem_append, List.mem_singleton] at hmem
            rcases hmem with hmem | rfl
            · exact checked.exist id hmem
            · exact ⟨parent, hparent, not_not.mp htenant⟩
          · intro id hmem found hfound hfailed
            rw [Bool.or_eq_true]
            rcases hcases hmem hfound with hmem | rfl
            · exact .inl (checked.failed id hmem found hfound hfailed)
            · exact .inr hfailed
          · intro hsucceeded id hmem found hfound
            rw [Bool.and_eq_true, decide_eq_true_eq] at hsucceeded
            rcases hcases hmem hfound with hmem | rfl
            · exact checked.succeeded hsucceeded.1 id hmem found hfound
            · exact hsucceeded.2
          · intro hfailed
            rw [Bool.or_eq_true] at hfailed
            rw [Bool.and_eq_false_iff]
            rcases hfailed with hfailed | hfailed
            · exact .inl (checked.exclusive hfailed)
            · refine .inr (decide_eq_false ?_)
              intro hstate
              rw [hstate] at hfailed
              cases hfailed

theorem checked_of_validate {check : DependencyCheck}
    (h : validateExistingDependencies db tenantID dependencies = .ok check) :
    Checked db.jobs tenantID check := by
  have hloop : ∀ (rest : List String) (start : DependencyCheck), Checked db.jobs tenantID start →
      rest.foldlM (checkDependency db tenantID) start = .ok check → Checked db.jobs tenantID check := by
    intro rest
    induction rest with
    | nil =>
      intro start hstart hend
      cases hend
      exact hstart
    | cons id rest ih =>
      intro start hstart hend
      rw [List.foldlM_cons] at hend
      cases hnext : checkDependency db tenantID start id with
      | error error => rw [hnext] at hend; cases hend
      | ok next =>
        rw [hnext] at hend
        exact ih next (hstart.checkDependency hnext) hend
  exact hloop dependencies {} ⟨fun _ h => (by cases h), fun _ h => (by cases h),
    fun _ _ h => (by cases h), fun h => (by cases h)⟩ h

theorem activeJobs_eq (db : Database) (tenantID : String) :
    (activeJobs db tenantID : Int) = (yardOf db).depth tenantID := by
  have hrows : (db.jobs.rows.map Prod.snd).filter (Yard.occupies tenantID) =
      (db.jobs.rows.filter fun entry => entry.2.tenantID = tenantID ∧
        !entry.2.state.terminal).map Prod.snd := by
    rw [List.filter_map]
    congr 1
    apply List.filter_congr
    intro entry _
    simp [Yard.occupies]
  have hsum := db.jobs.sumBy_ite (Yard.occupies tenantID) fun _ => 1
  unfold activeJobs Yard.depth
  change _ = db.jobs.sumBy _
  rw [hsum, hrows]
  simp [Function.comp_def, List.map_const']

theorem ensureAdmission_ok (policy : Policy)
    (h : ensureAdmission options tenantID incoming db = .ok () db') :
    ∃ tenants, yardOf db' = { yardOf db with tenants := tenants } ∧
      (tenants.get? tenantID).isSome ∧
      (∀ limits, tenants.get? tenantID = some limits → 0 < limits.maxDepth →
        (yardOf db).depth tenantID + incoming ≤ limits.maxDepth) ∧
      ReflTransGen (Step policy) (yardOf db) (yardOf db') := by
  obtain ⟨_, db1, hinsert, h⟩ := bind_ok h
  obtain ⟨limits, hfound, h⟩ := found_bind h rfl
  replace h := query_bind h
  obtain ⟨hroom, rfl⟩ := require_ok h
  have hyard : yardOf db1 = { yardOf db with tenants := db1.tenantLimits } := by
    rcases insertIfAbsent_ok hinsert with ⟨_, _, rfl⟩ | ⟨_, _, rfl⟩ <;> rfl
  refine ⟨db1.tenantLimits, hyard, Option.isSome_of_mem hfound, ?_, ?_⟩
  · intro found hget hpositive
    rw [show db1.tenantLimits.get? tenantID = some limits from hfound,
      Option.some.injEq] at hget
    subst hget
    rw [activeJobs_eq, hyard] at hroom
    change ¬(limits.maxDepth > 0 ∧ (yardOf db).depth tenantID + incoming > _) at hroom
    omega
  · rcases insertIfAbsent_ok hinsert with ⟨_, _, rfl⟩ | ⟨_, habsent, rfl⟩
    · exact .refl
    · exact .single (Micro.step_of_jobs (.tenant tenantID _ habsent rfl) rfl)

def Opens : (String × String → Option Int) → (String × String → Option Int) → Prop :=
  ReflTransGen fun slots slots' =>
    ∃ key, slots key = none ∧ slots' = Function.update slots key (some 0)

theorem Opens.isSome {slots : String × String → Option Int} (h : Opens slots slots')
    (hkey : (slots key).isSome) : (slots' key).isSome := by
  induction h with
  | refl => exact hkey
  | tail _ hlast ih =>
    obtain ⟨opened, hnone, rfl⟩ := hlast
    rw [Function.update_of_ne]
    · exact ih
    · rintro rfl
      rw [hnone] at ih
      cases ih

theorem Opens.steps {slots : String × String → Option Int} (h : Opens slots slots') (yard : Yard) :
    ReflTransGen (Step policy) { yard with queueSlots := slots }
      { yard with queueSlots := slots' } := by
  induction h with
  | refl => exact .refl
  | tail _ hlast ih =>
    obtain ⟨key, hnone, rfl⟩ := hlast
    exact ih.tail (Micro.step_of_jobs (.queue key hnone) rfl)

theorem ensureQueue_ok (h : ensureQueue tenantID queue now db = .ok () db') :
    ∃ slots, Opens (yardOf db).queueSlots slots ∧ (slots (tenantID, queue)).isSome ∧
      yardOf db' = { yardOf db with queueSlots := slots } := by
  obtain ⟨_, _, hinsert⟩ := bind_pure_ok h
  rcases insertIfAbsent_ok hinsert with ⟨_, ⟨row, hrow⟩, rfl⟩ | ⟨_, habsent, rfl⟩
  · refine ⟨(yardOf db).queueSlots, .refl, ?_, rfl⟩
    change (Option.map QueueRow.activeSlots _).isSome = true
    rw [show db.queueState.get? (tenantID, queue) = some row from hrow]
    rfl
  · have hslots : activeSlots (db.queueState.insert (tenantID, queue) { updatedAt := timeToDB now }) =
        Function.update (activeSlots db.queueState) (tenantID, queue) (some 0) := by
      funext key
      unfold activeSlots
      rw [Table.get?_insert, show db.queueState.get? (tenantID, queue) = none from habsent]
      by_cases hkey : key = (tenantID, queue)
      · rw [if_pos hkey, hkey, Function.update_self]
        rfl
      · rw [if_neg hkey, Function.update_of_ne hkey]
    refine ⟨Function.update (activeSlots db.queueState) (tenantID, queue) (some 0),
      .single ⟨(tenantID, queue), ?_, rfl⟩, ?_, ?_⟩
    · change Option.map QueueRow.activeSlots (db.queueState.get? (tenantID, queue)) = none
      rw [show db.queueState.get? (tenantID, queue) = none from habsent]
      rfl
    · rw [Function.update_self]
      rfl
    · apply Yard.ext <;> try rfl
      exact hslots

theorem insertJob_ok (h : insertJob job db = .ok () db') :
    0 < job.slotCost ∧ (yardOf db).jobs.get? job.id = none ∧
      yardOf db' = { yardOf db with
        jobs := (yardOf db).jobs.insert job.id (Job.toRow job) } := by
  obtain ⟨hcost, h⟩ := require_bind h
  obtain ⟨habsent, rfl⟩ := insert_ok h
  exact ⟨hcost, habsent, rfl⟩

theorem insertDependencies_ok {α : Type} {context : String} {items : List α}
    (edge : α → String × String)
    (h : items.forM (fun item => insertDependency context (edge item).1 (edge item).2) db =
      .ok () db') :
    yardOf db' = { yardOf db with
      edges := (yardOf db).edges.insertAll (items.map fun item => (edge item, ())) } := by
  induction items generalizing db with
  | nil =>
    obtain ⟨_, rfl⟩ := pure_ok h
    rfl
  | cons item rest ih =>
    obtain ⟨_, between, hitem, hrest⟩ := bind_ok h
    obtain ⟨_, hitem⟩ := require_bind hitem
    obtain ⟨_, rfl⟩ := insert_ok hitem
    rw [ih hrest]
    rfl

theorem admit_step {batch : Batch} (valid : batch.Valid yard) :
    Step policy yard (batch.apply yard) := by
  refine .micro (.admission batch valid) ?_
  intro id row hrow _
  rcases Batch.get?_apply_cases valid hrow with ⟨_, hnone⟩ | ⟨_, hold⟩
  · exact .inr hnone
  · exact .inl hold

theorem prepare_ok (policy : Policy)
    (hadmission : ensureAdmission options tenantID incoming db = .ok () middle)
    (hqueue : ensureQueue tenantID queue now middle = .ok () db') :
    ∃ tenants slots, yardOf db' = { yardOf db with tenants := tenants, queueSlots := slots } ∧
      (tenants.get? tenantID).isSome ∧ (slots (tenantID, queue)).isSome ∧
      (∀ limits, tenants.get? tenantID = some limits → 0 < limits.maxDepth →
        (yardOf db).depth tenantID + incoming ≤ limits.maxDepth) ∧
      ReflTransGen (Step policy) (yardOf db) (yardOf db') := by
  obtain ⟨tenants, hyard, htenant, hroom, hsteps⟩ := ensureAdmission_ok policy hadmission
  obtain ⟨slots, hopens, hslot, hyard'⟩ := ensureQueue_ok hqueue
  refine ⟨tenants, slots, ?_, htenant, hslot, hroom, hsteps.trans ?_⟩
  · rw [hyard', hyard]
  · rw [hyard']
    exact hopens.steps (yardOf middle)

theorem readySeqIf_ok {ready : Prop} [Decidable ready] (h : readySeqIf ready db = .ok seq db') :
    yardOf db' = { yardOf db with readySeq := (yardOf db').readySeq } ∧
      (yardOf db).readySeq ≤ (yardOf db').readySeq ∧
      (seq = 0 ∨ ready ∧ (yardOf db).readySeq < seq ∧ seq ≤ (yardOf db').readySeq) := by
  unfold readySeqIf at h
  split at h
  · rename_i hready
    obtain ⟨rfl, hyard⟩ := nextReadySeq_ok h
    have hcounter : (yardOf db').readySeq = (yardOf db).readySeq + 1 := by rw [hyard]
    rw [hcounter]
    exact ⟨hyard, by omega, .inr ⟨hready, by omega, le_refl _⟩⟩
  · obtain ⟨rfl, rfl⟩ := pure_ok h
    exact ⟨rfl, le_refl _, .inl rfl⟩

theorem apply_of_pending {batch : Batch} (yard : Yard)
    (h : ∀ entry ∈ batch.jobs, entry.2.state = .pending) :
    batch.apply yard = { yard with
      jobs := yard.jobs.insertAll batch.jobs
      edges := yard.edges.insertAll (batch.edges.map fun edge => (edge, ()))
      history := admissions batch.jobs yard.history
      readySeq := batch.readySeq } := by
  have hledger : batch.jobs.filter (fun entry => entry.2.state.terminal) = [] :=
    List.filter_eq_nil_iff.mpr fun entry hentry => by
      rw [h entry hentry]
      decide
  unfold Batch.apply
  rw [hledger]
  apply Yard.ext <;> try rfl
  funext id
  have hdead : (batch.jobs.any fun entry => entry.1 = id && entry.2.state = .deadLetter) = false := by
    rw [List.any_eq_false]
    intro entry hentry
    simp [h entry hentry]
  dsimp only
  rw [hdead, Bool.or_false]

def singleBatch (id : String) (row : JobRow) (parents : List String) (readySeq : Int) : Batch where
  jobs := [(id, row)]
  edges := parents.map fun parent => (id, parent)
  readySeq := readySeq

section Single

variable {id : String} {parents : List String}

theorem singleBatch_valid (fresh : yard.jobs.get? id = none)
    (new : (singleBatch id row parents readySeq).NewRow yard row)
    (counter : yard.readySeq ≤ readySeq)
    (depth : ∀ limits, yard.tenants.get? row.tenantID = some limits → 0 < limits.maxDepth →
      yard.depth row.tenantID + 1 ≤ limits.maxDepth)
    (exist : ∀ parent ∈ parents, ∃ upstream, yard.jobs.get? parent = some upstream ∧
      upstream.tenantID = row.tenantID)
    (failed : ∀ parent ∈ parents, ∀ upstream, yard.jobs.get? parent = some upstream →
      upstream.state.unsuccessful = true → row.state = .deadLetter)
    (gated : 0 < row.readySeq → ∀ parent ∈ parents, ∀ upstream,
      yard.jobs.get? parent = some upstream → upstream.state = .succeeded) :
    (singleBatch id row parents readySeq).Valid yard := by
  have hjob : ∀ {other found}, (other, found) ∈ (singleBatch id row parents readySeq).jobs →
      other = id ∧ found = row := by
    intro other found hmem
    simpa [singleBatch] using hmem
  have hedge : ∀ {child parent}, (child, parent) ∈ (singleBatch id row parents readySeq).edges →
      child = id ∧ parent ∈ parents := by
    intro child parent hmem
    obtain ⟨_, hparent, heq⟩ := List.mem_map.mp hmem
    cases heq
    exact ⟨rfl, hparent⟩
  -- A parent exists already, so it is not the job itself.
  have hupstream : ∀ {parent upstream}, parent ∈ parents → (yard.jobs.get? parent = some upstream ∨
        (parent, upstream) ∈ (singleBatch id row parents readySeq).jobs) →
      yard.jobs.get? parent = some upstream := by
    intro parent upstream hparent hfound
    rcases hfound with hfound | hfound
    · exact hfound
    · obtain ⟨rfl, _⟩ := hjob hfound
      obtain ⟨_, hold, _⟩ := exist _ hparent
      rw [fresh] at hold
      cases hold
  refine ⟨List.nodup_singleton id, ?_, ?_, counter, List.pairwise_singleton _ _, ?_, ?_,
    ⟨fun _ => 0, ?_⟩, ?_, ?_⟩
  · intro other hother
    rw [List.mem_singleton.mp hother]
    exact fresh
  · intro other found hmem
    obtain ⟨_, rfl⟩ := hjob hmem
    exact new
  · intro other found limits hmem
    obtain ⟨_, rfl⟩ := hjob hmem
    exact depth limits
  · intro child parent hmem
    obtain ⟨rfl, hparent⟩ := hedge hmem
    obtain ⟨upstream, hold, htenant⟩ := exist parent hparent
    exact ⟨row, List.mem_singleton_self _, upstream, .inl hold, htenant⟩
  · intro child parent hmem hself
    obtain ⟨_, hparent⟩ := hedge hmem
    obtain ⟨_, hold, _⟩ := exist parent hparent
    rw [List.mem_singleton.mp hself, fresh] at hold
    cases hold
  · intro child parent found upstream hmem hrow hfound hfailed
    obtain ⟨_, hparent⟩ := hedge hmem
    obtain ⟨_, rfl⟩ := hjob hrow
    exact failed parent hparent upstream (hupstream hparent hfound) hfailed
  · intro child parent found upstream hmem hrow hfound hready
    obtain ⟨_, hparent⟩ := hedge hmem
    obtain ⟨_, rfl⟩ := hjob hrow
    exact gated hready parent hparent upstream (hupstream hparent hfound)

theorem singleBatch_edges :
    (singleBatch id row parents readySeq).edges.map (fun edge => (edge, ())) =
      parents.map fun parent => ((id, parent), ()) := by
  unfold singleBatch
  rw [List.map_map]
  rfl

theorem singleBatch_apply_alive (h : row.state = .pending) :
    (singleBatch id row parents readySeq).apply yard = { yard with
      jobs := yard.jobs.insert id row
      edges := yard.edges.insertAll (parents.map fun parent => ((id, parent), ()))
      history := record yard.history id .jobAdmitted row.state row.stateVersion
      readySeq := readySeq } := by
  rw [apply_of_pending, singleBatch_edges]
  · rfl
  · intro entry hentry
    rw [List.mem_singleton.mp hentry]
    exact h

theorem singleBatch_apply_dead (h : row.state = .deadLetter) :
    (singleBatch id row parents readySeq).apply yard = { yard with
      jobs := yard.jobs.insert id row
      edges := yard.edges.insertAll (parents.map fun parent => ((id, parent), ()))
      completions := yard.completions.insert id (ledgerRow row "")
      deadLetters := Function.update yard.deadLetters id true
      history := record yard.history id .jobAdmitted row.state row.stateVersion
      readySeq := readySeq } := by
  have hledger : (singleBatch id row parents readySeq).jobs.filter
      (fun entry => entry.2.state.terminal) = [(id, row)] :=
    List.filter_eq_self.mpr fun entry hentry => by
      rw [List.mem_singleton.mp hentry]
      exact deadLetter_terminal h
  unfold Batch.apply
  rw [singleBatch_edges, hledger]
  apply Yard.ext <;> try rfl
  funext other
  by_cases hother : other = id
  · simp [singleBatch, h, hother]
  · simp [singleBatch, Function.update_of_ne hother, Ne.symm hother]

end Single

theorem admitJob_ok {spec : JobSpec} (policy : Policy) (normal : spec.normalize = spec)
    (h : admitJob options storage spec actor entropy now db = .ok job db') :
    ReflTransGen (Step policy) (yardOf db) (yardOf db') := by
  obtain ⟨_, hvalid, h⟩ := lift_bind h
  have hretry := (JobSpec.maxAttempts_of_validate (mapError_ok hvalid)).1
  rw [normal] at hretry
  replace h := query_bind h
  obtain ⟨check, hcheck, h⟩ := lift_bind h
  have checked := checked_of_validate hcheck
  obtain ⟨_, db1, hadmission, h⟩ := bind_ok h
  obtain ⟨_, db2, hqueue, h⟩ := bind_ok h
  obtain ⟨tenants, slots, hyard2, htenant, hslot, hroom, hsteps⟩ :=
    prepare_ok policy hadmission hqueue
  obtain ⟨seq, db3, hdraw, h⟩ := bind_ok h
  obtain ⟨hyard3, hcounter, hseq⟩ := readySeqIf_ok hdraw
  obtain ⟨_, db4, hinsert, h⟩ := bind_ok h
  obtain ⟨hcost, hfresh, hyard4⟩ := insertJob_ok hinsert
  obtain ⟨_, db5, hedges, h⟩ := bind_ok h
  have hyard5 := insertDependencies_ok (fun parent => (_, parent)) hedges
  obtain ⟨_, db6, hevent, h⟩ := bind_ok h
  have hyard6 := addEvent_ok hevent
  obtain ⟨_, db7, hdead, h⟩ := bind_ok h
  obtain ⟨rfl, rfl⟩ := pure_ok h
  refine hsteps.trans ?_
  have hjobs2 : (yardOf db2).jobs = db.jobs := by rw [hyard2]; rfl
  have htenant2 : ((yardOf db2).tenants.get? spec.tenantID).isSome := by rw [hyard2]; exact htenant
  have hslot2 : ((yardOf db2).queueSlots (spec.tenantID, spec.queue)).isSome := by
    rw [hyard2]
    exact hslot
  have hroom2 : ∀ limits, (yardOf db2).tenants.get? spec.tenantID = some limits →
      0 < limits.maxDepth → (yardOf db2).depth spec.tenantID + 1 ≤ limits.maxDepth := by
    rw [hyard2]
    exact hroom
  rw [hyard3] at hfresh
  change (yardOf db2).jobs.get? _ = none at hfresh
  rw [← hjobs2] at checked
  let base := newJob (newID entropy) spec (availability spec now) seq now
  cases hfailed : check.failed with
  | true =>
    rw [hfailed] at hcost hfresh hyard4 hyard5 hyard6 hdead
    let job := Job.failedUpstream base true now
    have hvalid : (singleBatch job.id (Job.toRow job) check.dependencies
        (yardOf db3).readySeq).Valid (yardOf db2) :=
      singleBatch_valid hfresh
        ⟨.inr rfl, fun _ => rfl, rfl, rfl, rfl, hcost, .inl hretry, htenant2, hslot2, .inl rfl⟩
        hcounter
        hroom2 checked.exist (fun _ _ _ _ _ => rfl) (fun hready => absurd hready (lt_irrefl _))
    rcases onlyIf_ok hdead with ⟨_, hdead⟩ | ⟨hfalse, _⟩
    · obtain ⟨_, db8, hcompletion, hletter⟩ := bind_ok hdead
      obtain ⟨_, hyard8⟩ := insertCanonicalCompletion_ok hcompletion
      have hyard9 := insertDeadLetter_ok hletter
      have hstep : Step policy (yardOf db2) _ := admit_step hvalid
      rw [singleBatch_apply_dead rfl] at hstep
      rw [hyard9, hyard8, hyard6, hyard5, hyard4, hyard3]
      exact .single hstep
    · exact (hfalse rfl).elim
  | false =>
    rw [hfailed] at hcost hfresh hyard4 hyard5 hyard6 hdead
    have hvalid : (singleBatch base.id (Job.toRow base) check.dependencies
        (yardOf db3).readySeq).Valid (yardOf db2) := by
      refine singleBatch_valid hfresh
        ⟨.inl rfl, fun hstate => (by cases hstate), rfl, rfl, rfl, hcost, .inl hretry, htenant2,
          hslot2, ?_⟩
        hcounter hroom2 checked.exist ?_ ?_
      · rcases hseq with hseq | ⟨_, hseq⟩
        · exact .inl hseq
        · exact .inr ⟨rfl, hseq⟩
      · intro parent hparent upstream hupstream hunsuccessful
        have := checked.failed parent hparent upstream hupstream hunsuccessful
        rw [hfailed] at this
        cases this
      · intro hready
        rcases hseq with hseq | ⟨⟨hsucceeded, _⟩, _⟩
        · exact absurd hready (by rw [show (Job.toRow base).readySeq = 0 from hseq]; exact lt_irrefl _)
        · exact checked.succeeded hsucceeded
    rcases onlyIf_ok hdead with ⟨hfalse, _⟩ | ⟨_, rfl⟩
    · cases hfalse
    · have hstep : Step policy (yardOf db2) _ := admit_step hvalid
      rw [singleBatch_apply_alive rfl] at hstep
      rw [hyard6, hyard5, hyard4, hyard3]
      exact .single hstep

end RailYard.Refinement
