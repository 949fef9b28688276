import RailYard.Refinement.Availability
import RailYard.Refinement.Requests

/-! What the store answers to the submission of a job, in the order of its
checks. In a coherent state nothing fails after them. -/
namespace RailYard.Refinement
open Library Library.Transaction Domain Store
open Lifecycle

def maxDepth (options : Options) (db : Database) (tenantID : String) : Int :=
  ((db.tenantLimits.get? tenantID).map TenantRow.maxDepth).getD options.defaultTenantDepth

def HasCapacity (options : Options) (db : Database) (tenantID : String) (incoming : Nat) : Prop :=
  ¬(maxDepth options db tenantID > 0 ∧
    (activeJobs db tenantID + incoming : Int) > maxDepth options db tenantID)

instance (tenantID : String) (incoming : Nat) : Decidable (HasCapacity options db tenantID incoming) :=
  inferInstanceAs (Decidable (¬_))

def admissionVerdict (options : Options) (db : Database) (spec : JobSpec) (id : String) :
    Except Error Unit := do
  (spec.validate options.maxSlotCost options.allowShell).mapError (.wrapped "validate job")
  (validateExistingDependencies db spec.tenantID spec.dependsOn).map fun _ => ()
  demand (HasCapacity options db spec.tenantID 1) .queueFull
  demand (db.jobs.get? id = none) (.wrapped "insert job" (.constraint "jobs"))

theorem yields_ensureAdmission (options : Options) (db : Database) (tenantID : String)
    (incoming : Nat) : Yields (ensureAdmission options tenantID incoming) db
      (demand (HasCapacity options db tenantID incoming) .queueFull) := by
  refine .after (.insertIfAbsent _) fun _ db1 hinsert => .after (.query _) fun found _ hselect => ?_
  obtain ⟨hfound, rfl⟩ := select_ok hselect
  have hlimits : (found.map TenantRow.maxDepth) = some (maxDepth options db tenantID) ∧
      activeJobs db1 tenantID = activeJobs db tenantID := by
    unfold maxDepth
    rcases insertIfAbsent_ok hinsert with ⟨_, ⟨row, hrow⟩, rfl⟩ | ⟨_, habsent, rfl⟩
    · rw [← hfound, show (tenantLimits.read db).get? tenantID = some row from hrow]
      rw [show db.tenantLimits.get? tenantID = some row from hrow]
      exact ⟨rfl, rfl⟩
    · have hnone : db.tenantLimits.get? tenantID = none := habsent
      rw [hnone, ← hfound]
      change Option.map _ ((db.tenantLimits.insert tenantID _).get? tenantID) = _ ∧ _
      rw [Table.get?_insert_self _ _ hnone]
      exact ⟨rfl, rfl⟩
  cases found with
  | none => cases hlimits.1
  | some limits =>
    have hdepth : limits.maxDepth = maxDepth options db tenantID := Option.some.inj hlimits.1
    refine .after (.query _) fun active _ hquery => ?_
    obtain ⟨rfl, rfl⟩ := query_ok hquery
    rw [hdepth, hlimits.2]
    exact .require _ _

theorem slotCost_of_validate {spec : JobSpec} (h : spec.validate maxSlotCost allowShell = .ok ()) :
    1 ≤ spec.normalize.slotCost := by
  unfold JobSpec.validate at h
  dsimp only at h
  split at h
  · cases h
  · omega

def Own (db : Database) (tenantID id : String) : Prop :=
  ∃ row, db.jobs.get? id = some row ∧ row.tenantID = tenantID

def Foreign (db : Database) (tenantID id : String) : Prop :=
  ∃ row, db.jobs.get? id = some row ∧ row.tenantID ≠ tenantID

structure Passed (db : Database) (tenantID : String) (dependencies : List String) : Prop where
  own : ∀ id ∈ dependencies, Own db tenantID id
  nodup : dependencies.Nodup
  named : "" ∉ dependencies

section Lookups

variable {tenantID id : String}

theorem own_or_foreign (db : Database) (tenantID id : String) :
    db.jobs.get? id = none ∨ Own db tenantID id ∨ Foreign db tenantID id := by
  cases hrow : db.jobs.get? id with
  | none => exact .inl rfl
  | some row =>
    by_cases htenant : row.tenantID = tenantID
    · exact .inr (.inl ⟨row, hrow, htenant⟩)
    · exact .inr (.inr ⟨row, hrow, htenant⟩)

theorem Foreign.not_own (h : Foreign db tenantID id) : ¬Own db tenantID id := by
  intro ⟨row, hrow, htenant⟩
  obtain ⟨other, hother, hforeign⟩ := h
  rw [hrow] at hother
  cases hother
  exact hforeign htenant

theorem not_foreign_of_absent (h : db.jobs.get? id = none) : ¬Foreign db tenantID id := by
  intro ⟨row, hrow, _⟩
  rw [h] at hrow
  cases hrow

theorem not_own_of_absent (h : db.jobs.get? id = none) : ¬Own db tenantID id := by
  intro ⟨row, hrow, _⟩
  rw [h] at hrow
  cases hrow

theorem checkDependency_own {check : DependencyCheck} (hnamed : id ≠ "")
    (hnew : id ∉ check.dependencies) (h : Own db tenantID id) :
    ∃ check', checkDependency db tenantID check id = .ok check' ∧
      check'.dependencies = check.dependencies ++ [id] := by
  obtain ⟨row, hrow, htenant⟩ := h
  unfold checkDependency
  rw [if_neg hnamed, if_neg hnew, hrow]
  dsimp only
  rw [if_neg (not_not.mpr htenant)]
  exact ⟨_, rfl, rfl⟩

theorem checkDependency_absent {check : DependencyCheck} (hnamed : id ≠ "")
    (hnew : id ∉ check.dependencies) (h : db.jobs.get? id = none) :
    checkDependency db tenantID check id =
      .error (.wrapped "dependency %q" .notFound [id]) := by
  unfold checkDependency
  rw [if_neg hnamed, if_neg hnew, h]

theorem checkDependency_foreign {check : DependencyCheck} (hnamed : id ≠ "")
    (hnew : id ∉ check.dependencies) (h : Foreign db tenantID id) :
    checkDependency db tenantID check id =
      .error (.about "dependency %q belongs to another tenant" [id]) := by
  obtain ⟨row, hrow, htenant⟩ := h
  unfold checkDependency
  rw [if_neg hnamed, if_neg hnew, hrow]
  exact if_pos htenant

theorem checkDependency_ok {check : DependencyCheck}
    (h : checkDependency db tenantID check id = .ok check') :
    id ≠ "" ∧ id ∉ check.dependencies ∧ Own db tenantID id ∧
      check'.dependencies = check.dependencies ++ [id] := by
  by_cases hnamed : id = ""
  · rw [checkDependency, if_pos hnamed] at h
    cases h
  by_cases hnew : id ∈ check.dependencies
  · rw [checkDependency, if_neg hnamed, if_pos hnew] at h
    cases h
  rcases own_or_foreign db tenantID id with habsent | hown | hforeign
  · rw [checkDependency_absent hnamed hnew habsent] at h
    cases h
  · obtain ⟨_, hrun, hgrown⟩ := checkDependency_own hnamed hnew hown
    rw [hrun] at h
    cases h
    exact ⟨hnamed, hnew, hown, hgrown⟩
  · rw [checkDependency_foreign hnamed hnew hforeign] at h
    cases h

theorem checkDependency_nodup {check : DependencyCheck}
    (h : checkDependency db tenantID check id = .ok check') (nodup : check.dependencies.Nodup) :
    check'.dependencies.Nodup := by
  obtain ⟨_, hnew, _, hgrown⟩ := checkDependency_ok h
  rw [hgrown, List.nodup_append]
  refine ⟨nodup, List.nodup_singleton _, fun first hfirst second hsecond heq => ?_⟩
  rw [List.mem_singleton.mp hsecond] at heq
  exact hnew (heq ▸ hfirst)

theorem loop_ok {start check : DependencyCheck}
    (h : rest.foldlM (checkDependency db tenantID) start = .ok check)
    (nodup : start.dependencies.Nodup) :
    (∀ id ∈ rest, Own db tenantID id) ∧ (start.dependencies ++ rest).Nodup ∧ "" ∉ rest ∧
      check.dependencies = start.dependencies ++ rest := by
  induction rest generalizing start with
  | nil =>
    cases h
    simpa using nodup
  | cons id rest ih =>
    obtain ⟨between, hitem, hrest⟩ := except_bind_ok h
    obtain ⟨hnamed, _, hown, hgrown⟩ := checkDependency_ok hitem
    obtain ⟨howns, hnodups, hnames, hall⟩ := ih hrest (checkDependency_nodup hitem nodup)
    rw [hgrown, List.append_assoc, List.singleton_append] at hnodups hall
    refine ⟨?_, hnodups, ?_, hall⟩
    · rw [List.forall_mem_cons]
      exact ⟨hown, howns⟩
    · rw [List.mem_cons, not_or]
      exact ⟨hnamed.symm, hnames⟩

theorem loop_run {start : DependencyCheck} (own : ∀ id ∈ rest, Own db tenantID id)
    (nodup : (start.dependencies ++ rest).Nodup) (named : "" ∉ rest) :
    ∃ check, rest.foldlM (checkDependency db tenantID) start = .ok check ∧
      check.dependencies = start.dependencies ++ rest := by
  induction rest generalizing start with
  | nil => exact ⟨start, rfl, by simp⟩
  | cons id rest ih =>
    rw [List.forall_mem_cons] at own
    rw [List.mem_cons, not_or] at named
    have hnew : id ∉ start.dependencies := by
      intro hmem
      exact (List.nodup_append.mp nodup).2.2 id hmem id List.mem_cons_self rfl
    obtain ⟨between, hitem, hgrown⟩ := checkDependency_own (Ne.symm named.1) hnew own.1
    have hnodup : (between.dependencies ++ rest).Nodup := by
      rw [hgrown, List.append_assoc]
      exact nodup
    obtain ⟨check, hrest, hall⟩ := ih own.2 hnodup named.2
    refine ⟨check, ?_, ?_⟩
    · rw [List.foldlM_cons, hitem]
      exact hrest
    · rw [hall, hgrown, List.append_assoc]
      rfl

theorem Passed.run (passed : Passed db tenantID dependencies) :
    ∃ check, validateExistingDependencies db tenantID dependencies = .ok check ∧
      check.dependencies = dependencies := by
  have hstart : (({} : DependencyCheck).dependencies ++ dependencies).Nodup := passed.nodup
  exact loop_run passed.own hstart passed.named

theorem passed_iff (dependencies : List String) : Passed db tenantID dependencies ↔
    ∃ check, validateExistingDependencies db tenantID dependencies = .ok check := by
  constructor
  · intro passed
    obtain ⟨check, hrun, _⟩ := passed.run
    exact ⟨check, hrun⟩
  · intro ⟨check, hrun⟩
    obtain ⟨hown, hnodup, hnamed, _⟩ := loop_ok hrun List.nodup_nil
    exact ⟨hown, hnodup, hnamed⟩

theorem validate_stranger (passed : Passed db tenantID earlier) (hnamed : id ≠ "")
    (hnew : id ∉ earlier) (later : List String) :
    (db.jobs.get? id = none → validateExistingDependencies db tenantID (earlier ++ id :: later) =
      .error (.wrapped "dependency %q" .notFound [id])) ∧
    (Foreign db tenantID id → validateExistingDependencies db tenantID (earlier ++ id :: later) =
      .error (.about "dependency %q belongs to another tenant" [id])) := by
  obtain ⟨check, hrun, rfl⟩ := passed.run
  unfold validateExistingDependencies at hrun ⊢
  rw [List.foldlM_append, hrun]
  change (_ → (checkDependency db tenantID check id >>= _) = _) ∧
    (_ → (checkDependency db tenantID check id >>= _) = _)
  constructor
  · intro habsent
    rw [checkDependency_absent hnamed hnew habsent]
    rfl
  · intro hforeign
    rw [checkDependency_foreign hnamed hnew hforeign]
    rfl

end Lookups

theorem succeeds_insertDependencies {id : String} {dependencies : List String}
    (nodup : dependencies.Nodup) (distinct : id ∉ dependencies)
    (absent : ∀ parent, (yardOf db).edges.get? (id, parent) = none) :
    Succeeds (dependencies.forM (insertDependency context id)) db := by
  have hstep : ∀ parent rest before, (parent :: rest).Nodup ∧ id ∉ parent :: rest ∧
      (∀ other ∈ parent :: rest, (yardOf before).edges.get? (id, other) = none) →
      Succeeds (insertDependency context id parent) before ∧
        ∀ after, insertDependency context id parent before = .ok () after →
          rest.Nodup ∧ id ∉ rest ∧
            ∀ other ∈ rest, (yardOf after).edges.get? (id, other) = none := by
    intro parent rest before ⟨hnodup, hdistinct, habsent⟩
    rw [List.nodup_cons] at hnodup
    rw [List.mem_cons, not_or] at hdistinct
    refine ⟨.bind (.require hdistinct.1) fun _ _ hrequire => ?_, fun after hbody => ?_⟩
    · obtain ⟨_, rfl⟩ := require_ok hrequire
      exact .insert (habsent parent List.mem_cons_self)
    · refine ⟨hnodup.2, hdistinct.2, fun other hother => ?_⟩
      obtain ⟨_, hinsert⟩ := require_bind hbody
      obtain ⟨_, rfl⟩ := insert_ok hinsert
      have hne : (id, other) ≠ (id, parent) := by
        intro heq
        cases heq
        exact hnodup.1 hother
      exact (Table.get?_insert_ne _ _ hne).trans (habsent other (List.mem_cons_of_mem _ hother))
  obtain ⟨after, hrun, _⟩ := Succeeds.forM (motive := fun rest state => rest.Nodup ∧ id ∉ rest ∧
    ∀ other ∈ rest, (yardOf state).edges.get? (id, other) = none) hstep
    ⟨nodup, distinct, fun parent _ => absent parent⟩
  exact ⟨(), after, hrun⟩

theorem succeeds_readySeqIf (ready : Prop) [Decidable ready] : Succeeds (readySeqIf ready) db := by
  unfold readySeqIf
  split
  · exact .bind (.mutate _) fun _ _ _ => .query _
  · exact .pure 0

theorem yields_admitJob {spec : JobSpec} (coherent : Coherent (yardOf db))
    (normal : spec.normalize = spec) :
    Yields (admitJob options storage spec actor entropy now) db
      (admissionVerdict options db spec (newID entropy)) := by
  refine .bind (.check _) fun _ _ hvalidate => ?_
  obtain ⟨hvalid, rfl⟩ := lift_ok hvalidate
  have hcost := slotCost_of_validate (mapError_ok hvalid)
  rw [normal] at hcost
  refine .after (.query _) fun found _ hquery => ?_
  obtain ⟨rfl, rfl⟩ := query_ok hquery
  refine .bind (.lift _) fun check _ hlift => ?_
  obtain ⟨hcheck, rfl⟩ := lift_ok hlift
  refine .bind (yields_ensureAdmission options db _ _) fun _ db1 hadmission => ?_
  obtain ⟨_, hyard1, _⟩ := ensureAdmission_ok anyPolicy hadmission
  refine .after (.bind (.insertIfAbsent _) fun _ _ _ => .pure _) fun _ db2 hqueue => ?_
  obtain ⟨_, _, _, hyard2⟩ := ensureQueue_ok hqueue
  refine .after (succeeds_readySeqIf _) fun seq db3 hseq => ?_
  obtain ⟨hyard3, _⟩ := readySeqIf_ok hseq
  generalize hjob : Job.failedUpstream _ check.failed now = job
  have hid : job.id = newID entropy := by
    rw [← hjob, Job.failedUpstream]
    split <;> rfl
  have hpositive : 0 < job.slotCost := by
    rw [← hjob, Job.failedUpstream]
    split <;> exact hcost
  have hsame : (yardOf db3).jobs = db.jobs ∧ (yardOf db3).edges = (yardOf db).edges ∧
      (yardOf db3).completions = (yardOf db).completions ∧
      (yardOf db3).deadLetters = (yardOf db).deadLetters := by
    rw [hyard3, hyard2, hyard1]
    exact ⟨rfl, rfl, rfl, rfl⟩
  have hverdict : Yields (insertJob job) db3
      (demand (db.jobs.get? (newID entropy) = none) (.wrapped "insert job" (.constraint "jobs"))) := by
    rw [← hid, ← hsame.1]
    refine .after (.require hpositive) fun _ _ hrequire => ?_
    obtain ⟨_, rfl⟩ := require_ok hrequire
    exact .insert job.id _ _
  refine .before hverdict fun _ db4 hinsert => ?_
  obtain ⟨_, hfresh, hyard4⟩ := insertJob_ok hinsert
  rw [hsame.1] at hfresh
  have hedges : ∀ parent, (yardOf db4).edges.get? (job.id, parent) = none := by
    intro parent
    rw [hyard4]
    change (yardOf db3).edges.get? _ = none
    rw [hsame.2.1]
    by_contra hedge
    obtain ⟨_, _, hrow, _⟩ := coherent.graph.ends job.id parent
      ((Table.mem_keys_iff _ _).mpr (Option.ne_none_iff_exists'.mp hedge))
    rw [show (yardOf db).jobs.get? job.id = none from hfresh] at hrow
    cases hrow
  have hpassed : Passed db spec.tenantID check.dependencies := by
    have passed := (passed_iff spec.dependsOn).mpr ⟨check, hcheck⟩
    obtain ⟨_, hrun, hall⟩ := passed.run
    rw [hcheck] at hrun
    cases hrun
    rwa [← hall] at passed
  have hdistinct : job.id ∉ check.dependencies := fun hmem =>
    not_own_of_absent hfresh (hpassed.own job.id hmem)
  refine .bind (succeeds_insertDependencies hpassed.nodup hdistinct hedges)
    fun _ db5 hdependencies => .bind (.mutate _) fun _ db6 hevent => .bind (.onlyIf ?_) fun _ _ _ =>
    .pure _
  intro hfailed
  have hyard6 : (yardOf db6).completions = (yardOf db).completions ∧
      (yardOf db6).deadLetters = (yardOf db).deadLetters := by
    rw [addEvent_ok hevent, insertDependencies_ok (fun parent => (_, parent)) hdependencies, hyard4]
    exact hsame.2.2
  obtain ⟨hcompletion, hletter⟩ := coherent.ledger.absent job.id hfresh
  have hdead : job.state = .deadLetter ∧ job.failure = some upstreamFailed := by
    rw [← hjob, hfailed]
    exact ⟨rfl, rfl⟩
  rw [hdead.1, hdead.2]
  refine .bind (succeeds_insertCompletion ?_) fun _ db7 hinserted => succeeds_insertDeadLetter ?_
  · rw [hyard6.1]
    exact hcompletion
  · rw [(insertCanonicalCompletion_ok hinserted).2]
    change (yardOf db6).deadLetters job.id = false
    rw [hyard6.2]
    exact hletter

def submissionVerdict (options : Options) (db : Database) (submission : Submission) (id : String) :
    Except Error Unit := do
  validateIdempotency submission.idempotencyKey submission.requestDigest
  admissionVerdict options db submission.job.normalize id
  demand (encodableTime submission.job.availableAt = true) (.text "encode response")

theorem encodable_availability (hnow : encodableTime now = true) :
    encodableTime (availability spec now) = encodableTime spec.availableAt := by
  unfold availability
  split
  · next hzero =>
    rw [hnow, hzero]
    rfl
  · rfl

theorem yields_submitJob (coherent : Coherent (yardOf db)) (hnow : encodableTime now = true)
    (habsent : db.idempotencyRequests.get?
      (submission.job.normalize.tenantID, submission.idempotencyKey) = none) :
    Yields (submitJob options submission entropy now) db
      (submissionVerdict options db submission (newID entropy)) := by
  refine .bind (.check _) fun _ _ hlift => ?_
  obtain ⟨_, rfl⟩ := lift_ok hlift
  refine .after ⟨_, _, readIdempotency_none habsent⟩ fun _ _ hread => ?_
  cases (readIdempotency_none habsent).symm.trans hread
  refine .bind (yields_admitJob coherent (JobSpec.normalize_normalize _)) fun job db1 hadmit => ?_
  have htime : job.availableAt = availability submission.job.normalize now :=
    (admitJob_row hadmit).1
  have hsame : db1.idempotencyRequests = db.idempotencyRequests :=
    Preserves.ok ((aloof_idempotencyRequests.moves _ _).admitJob _ _ _ _) hadmit
  have hencodable : (Response.job job).encodable = encodableTime submission.job.availableAt := by
    change encodableTime job.availableAt = _
    rw [htime, encodable_availability hnow]
    rfl
  rw [← hencodable]
  refine .before (.before (.require _ _) fun _ _ hrequire => ?_) fun _ _ _ => .pure _
  obtain ⟨_, rfl⟩ := require_ok hrequire
  exact .insert (show db1.idempotencyRequests.get? _ = none by rw [hsame]; exact habsent)

end RailYard.Refinement
