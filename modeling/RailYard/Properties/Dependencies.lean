import RailYard.Refinement.Progress
import RailYard.Refinement.Runs

/-! What dependencies mean in every reachable state: the graph is acyclic and
settled at admission, nobody waits for a job that has failed or for nothing at
all, and, as long as no operator releases a job ahead of its parents, nothing
runs before its parents have succeeded. -/
namespace RailYard.Properties
open Domain Store
open Lifecycle Refinement Relation

/-- `job_dependencies` holds the pair. -/
def DependsOn (db : Database) (child parent : String) : Prop :=
  (child, parent) ∈ db.jobDependencies.keys

structure Disciplined (db : Database) : Prop where
  acyclic : ∀ id, ¬TransGen (DependsOn db) id id
  tenants : ∀ child parent, DependsOn db child parent → ∃ job upstream,
    db.jobs.get? child = some job ∧ db.jobs.get? parent = some upstream ∧
      upstream.tenantID = job.tenantID

/-- The dependencies of the jobs that exist in `db` are the same later. -/
def EdgesKept (db db' : Database) : Prop :=
  ∀ child job, db.jobs.get? child = some job →
    ∀ parent, DependsOn db' child parent ↔ DependsOn db child parent

theorem disciplined_of_graph (graph : Graph (yardOf db)) : Disciplined db where
  acyclic := by
    intro id hcycle
    apply graph.acyclic id
    change TransGen (Function.swap (DependsOn db)) id id
    rwa [transGen_swap]
  tenants := graph.ends

/-- In every reachable state the graph is acyclic within tenants, and whatever
happens next leaves the edges of its jobs alone. -/
theorem graph_discipline (env : Env) (options : Options) (activities later : List Activity) :
    let db := (run env (freshStore options) activities).db
    let db' := (run env (freshStore options) (activities ++ later)).db
    Disciplined db ∧ EdgesKept db db' := by
  intro db db'
  refine ⟨disciplined_of_graph (sound_run env options activities).graph, ?_⟩
  intro child job hjob parent
  exact (evolves_run env options activities later).edges child parent job hjob

def Reapable (db : Database) (id : String) (job : JobRow) : Prop :=
  ∃ attempt, db.attempts.get? (id, job.attemptNo) = some attempt ∧
    attempt.state.isOpen = true ∧ attempt.leaseGeneration = job.leaseGeneration ∧
    ∀ now, attempt.expiresAt ≤ timeToDB now →
      (id, ⟨job.attemptNo, attempt, job⟩) ∈ expiredLeases db now

/-- A promotion at any time from `available_at` on that has room for all jobs
makes the job ready. -/
def Promotable (db : Database) (id : String) (job : JobRow) : Prop :=
  ∀ now limit, job.availableAt ≤ timeToDB now → (db.jobs.rows.length : Int) ≤ limit →
    ∃ count db', promoteDue now limit db = .ok count db' ∧
      ∃ next, db'.jobs.get? id = some next ∧ next.state = .pending ∧ 0 < next.readySeq

inductive Waiting (db : Database) (id : String) (job : JobRow) : Prop
  | ready (pending : job.state = .pending) (ready : 0 < job.readySeq)
  | leased (leased : job.state = .scheduled ∨ job.state = .running) (reapable : Reapable db id job)
  | due (idle : job.state = .pending ∨ job.state = .retrying) (unready : job.readySeq = 0)
      (parents : ∀ parent, DependsOn db id parent →
        ∃ upstream, db.jobs.get? parent = some upstream ∧ upstream.state = .succeeded)
      (promotable : Promotable db id job)
  | behind (parent : String) (upstream : JobRow) (edge : DependsOn db id parent)
      (found : db.jobs.get? parent = some upstream) (alive : upstream.state.terminal = false)

theorem promotable_of_idle (fences : Fences (yardOf db)) {id : String}
    (hjob : db.jobs.get? id = some job) (hidle : job.state = .pending ∨ job.state = .retrying)
    (hunready : job.readySeq = 0) (hparents : (yardOf db).ParentsSucceeded id) :
    Promotable db id job := by
  intro now limit havailable hlimit
  obtain ⟨db', hrun, hready, _⟩ := promoteDue_run fences now limit
  have hdue : (id, job) ∈ dueJobs db now limit :=
    mem_dueJobs hjob (isDue_iff.mpr ⟨hidle, hunready, havailable, hparents⟩) hlimit
  obtain ⟨next, hnext, hpending, hplace, _⟩ := hready (id, job) hdue
  exact ⟨_, db', hrun, next, hnext, hpending, hplace⟩

theorem waiting_of_alive (sound : Sound (yardOf db)) {id : String}
    (hjob : db.jobs.get? id = some job) (halive : job.state.terminal = false) :
    Waiting db id job := by
  obtain ⟨hnonneg, _, hpending⟩ := sound.fences.ready id job hjob
  by_cases hready : 0 < job.readySeq
  · exact .ready (hpending hready) hready
  have hunready : job.readySeq = 0 := by omega
  by_cases hleased : job.state.leased = true
  · obtain ⟨attempt, hattempt, hopen, hgeneration⟩ := sound.fences.openAttempt hjob hleased
    exact .leased (JobState.leased_iff.mp hleased) ⟨attempt, hattempt, hopen, hgeneration,
      fun now hdue => mem_expiredLeases.mpr
        ⟨hattempt, hjob, rfl, hgeneration.symm, hopen, hdue, hleased⟩⟩
  have hidle := JobState.idle_iff.mp ⟨halive, Bool.eq_false_iff.mpr hleased⟩
  by_cases hparents : (yardOf db).ParentsSucceeded id
  · refine .due hidle hunready ?_ (promotable_of_idle sound.fences hjob hidle hunready hparents)
    intro parent hedge
    obtain ⟨_, upstream, _, hupstream, _⟩ := sound.graph.ends id parent hedge
    exact ⟨upstream, hupstream, hparents parent upstream hedge hupstream⟩
  -- Some parent has not succeeded, and it has not failed either.
  unfold Yard.ParentsSucceeded at hparents
  push Not at hparents
  obtain ⟨parent, upstream, hedge, hupstream, hstate⟩ := hparents
  refine .behind parent upstream hedge hupstream (Bool.eq_false_iff.mpr fun hterminal => ?_)
  have hfailed := (JobState.terminal_iff.mp hterminal).resolve_left hstate
  rw [sound.propagated id parent job upstream hedge hjob hupstream hfailed] at halive
  cases halive

/-- In every reachable state nobody is stranded. -/
theorem nobody_stranded (env : Env) (options : Options) (activities : List Activity) :
    let db := (run env (freshStore options) activities).db
    ∀ id job, db.jobs.get? id = some job →
      ((∃ parent upstream, DependsOn db id parent ∧ db.jobs.get? parent = some upstream ∧
        (upstream.state = .failed ∨ upstream.state = .deadLetter)) → job.state.terminal = true) ∧
      (job.state.terminal = false → Waiting db id job) := by
  intro db id job hjob
  have sound := sound_run env options activities
  refine ⟨?_, waiting_of_alive sound hjob⟩
  rintro ⟨parent, upstream, hedge, hupstream, hfailed⟩
  exact sound.propagated id parent job upstream hedge hjob hupstream
    (JobState.unsuccessful_iff.mpr hfailed)

/-- Jobs that run, have run or may be run next have parents that succeeded. -/
def DependencyGate (db : Database) : Prop :=
  ∀ id job, db.jobs.get? id = some job →
    (0 < job.readySeq ∨ job.state ∈ [.scheduled, .running, .retrying, .succeeded] ∨
      0 < job.attemptNo) →
    ∀ parent, DependsOn db id parent →
      ∃ upstream, db.jobs.get? parent = some upstream ∧ upstream.state = .succeeded

theorem gate_of_gated (gated : Gated (yardOf db)) (graph : Graph (yardOf db)) :
    DependencyGate db := by
  intro id job hjob hdemand parent hedge
  obtain ⟨_, upstream, _, hupstream, _⟩ := graph.ends id parent hedge
  exact ⟨upstream, hupstream, gated id job hjob hdemand parent upstream hedge hupstream⟩

theorem gated_empty : Gated Yard.empty := fun _ _ h => by cases h

def ReleasesInOrder (store : StoreState) : Activity → Prop
  | .call call => respectsGate store.db call.op = true
  | _ => True

/-- The gate holds in every state that a run reaches in which operators wait
for parents. -/
theorem dependency_gate (env : Env) (options : Options) (activities : List Activity)
    (h : Along env ReleasesInOrder (freshStore options) activities) :
    DependencyGate (run env (freshStore options) activities).db := by
  have hkeeps : ∀ store activity, ReleasesInOrder store activity →
      KeepsTo env { gated := True } store activity := by
    intro store activity hreleases
    cases activity with
    | call call =>
      exact ⟨fun _ => hreleases, fun hfalse => hfalse.elim, fun _ _ _ _ _ => trivial,
        fun _ _ _ _ _ _ _ => trivial⟩
    | fireDueCron => trivial
    | deliverRedis => trivial
  have hsteps := run_ok trivial (sound_fresh options) (h.imp hkeeps)
  have hgated : Gated (yardOf (freshStore options).db) := gated_empty
  exact gate_of_gated (hgated.steps trivial (sound_fresh options).toCoherent hsteps)
    (sound_run env options activities).graph

/-- A store without triggers, with a collision-free stand-in for SHA-256. -/
def plainEnv : Env where
  sha256 := List.reverse
  parseCron := fun _ => none
  decodeJobSpec := fun _ => none

def entropyOf (byte : UInt8) : Entropy := Vector.replicate 16 byte

def plainJob (byte : UInt8) (dependsOn : List String) : Activity :=
  .call ⟨.submitJob {
    job := { payload := { type := .noop }, dependsOn := dependsOn }
    actor := "api"
    idempotencyKey := newID (entropyOf byte)
    requestDigest := "digest" } (entropyOf byte), ⟨1, 0⟩⟩

def forceRelease (byte : UInt8) : Activity :=
  .call ⟨.forceJobAction {
    jobID := newID (entropyOf byte)
    actor := "operator"
    idempotencyKey := newID (entropyOf byte)
    requestDigest := "digest" } .release, ⟨1, 0⟩⟩

theorem dependency_gate_chain :
    let activities := [plainJob 1 [], plainJob 2 [newID (entropyOf 1)], forceRelease 1]
    Along plainEnv ReleasesInOrder (freshStore defaultOptions) activities ∧
      DependencyGate (run plainEnv (freshStore defaultOptions) activities).db := by
  intro activities
  have halong : Along plainEnv ReleasesInOrder (freshStore defaultOptions) activities := by
    refine ⟨?_, ?_, ?_, trivial⟩
    · change respectsGate _ _ = true
      decide +kernel
    · change respectsGate _ _ = true
      decide +kernel
    · change respectsGate _ _ = true
      decide +kernel
  exact ⟨halong, dependency_gate plainEnv defaultOptions activities halong⟩

/-- A release makes a child ready while its parent has not even started. -/
theorem released_ahead_of_parent : ¬DependencyGate (run plainEnv (freshStore defaultOptions)
    [plainJob 1 [], plainJob 2 [newID (entropyOf 1)], forceRelease 2]).db := by
  generalize hdb : (run plainEnv (freshStore defaultOptions)
    [plainJob 1 [], plainJob 2 [newID (entropyOf 1)], forceRelease 2]).db = db
  have hchild : (db.jobs.get? (newID (entropyOf 2))).map JobRow.readySeq = some 2 := by
    subst hdb
    decide +kernel
  have hparent : (db.jobs.get? (newID (entropyOf 1))).map JobRow.state = some .pending := by
    subst hdb
    decide +kernel
  have hedge : DependsOn db (newID (entropyOf 2)) (newID (entropyOf 1)) := by
    subst hdb
    unfold DependsOn
    decide +kernel
  intro hgate
  obtain ⟨job, hjob, hready⟩ := Option.map_eq_some_iff.mp hchild
  obtain ⟨upstream, hupstream, hstate⟩ := hgate _ job hjob (.inl (by omega)) _ hedge
  rw [hupstream, Option.map_some, hstate] at hparent
  cases hparent

end RailYard.Properties
