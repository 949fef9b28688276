import RailYard.Properties.Dependencies

/-! The queues in every reachable state: who holds a place in the ready order,
in which order places are handed out, and how many jobs a tenant can have. -/
namespace RailYard.Properties
open Store Lifecycle Refinement

def releasesOf (db : Database) (id : String) : List EventRow :=
  db.events.filter fun event => event.jobID = id ∧ event.eventType = .dependencyReleased

structure ReadyOrder (db : Database) : Prop where
  waiting : ∀ id job, db.jobs.get? id = some job → 0 < job.readySeq →
    job.state = .pending ∧ job.readySeq ≤ db.readySeq
  distinct : ∀ id id' job job', db.jobs.get? id = some job → db.jobs.get? id' = some job' →
    0 < job.readySeq → job.readySeq = job'.readySeq → id = id'
  unstarted : ∀ id job, db.jobs.get? id = some job → job.state = .pending →
    job.readySeq = 0 → job.attemptNo = 0
  released : ∀ id, (releasesOf db id).length ≤ 1

/-- What is ready in the later state was ready in its place before, or stands
behind every place handed out by then. -/
def ReadyLater (db db' : Database) : Prop :=
  db.readySeq ≤ db'.readySeq ∧
    ∀ id job', db'.jobs.get? id = some job' → 0 < job'.readySeq →
      (∃ job, db.jobs.get? id = some job ∧ job.readySeq = job'.readySeq) ∨
        db.readySeq < job'.readySeq

theorem releases_eq (db : Database) (id : String) :
    releases id (yardOf db).history = (releasesOf db id).length := by
  unfold releases releasesOf yardOf
  rw [List.countP_map, List.countP_eq_length_filter]
  congr 2
  funext event
  simp only [Function.comp_apply, entry, Bool.decide_and]
  rfl

theorem readyOrder_of_yard (fences : Fences (yardOf db)) (places : Places (yardOf db)) :
    ReadyOrder db where
  waiting := fun id job hjob hpositive =>
    have hready := fences.ready id job hjob
    ⟨hready.2.2 hpositive, hready.2.1⟩
  distinct := places.distinct
  unstarted := places.unstarted
  released := fun id => (releases_eq db id).symm.trans_le (places.once id)

/-- In every reachable state the ready order is kept, and whatever happens next
only adds places behind those that have been handed out. -/
theorem ready_order (env : Env) (options : Options) (activities later : List Activity) :
    let db := (run env (freshStore options) activities).db
    let db' := (run env (freshStore options) (activities ++ later)).db
    ReadyOrder db ∧ ReadyLater db db' := by
  intro db db'
  have sound := sound_run env options activities
  have hdraws : DrawsAbove (yardOf db) (yardOf db') := by
    change DrawsAbove _ (yardOf (run env (freshStore options) (activities ++ later)).db)
    rw [run_append]
    exact .micros sound.fences (micros_of_steps (steps_run sound later))
  exact ⟨readyOrder_of_yard sound.fences
    (orderly_run env options activities).places, hdraws.counter, hdraws.place⟩

/-- In every reachable state no tenant with a depth limit has more jobs alive
than the limit. -/
theorem admission_cap (env : Env) (options : Options) (activities : List Activity) :
    let db := (run env (freshStore options) activities).db
    ∀ tenantID limits, db.tenantLimits.get? tenantID = some limits → 0 < limits.maxDepth →
      (activeJobs db tenantID : Int) ≤ limits.maxDepth := by
  intro db tenantID limits hlimits hpositive
  rw [activeJobs_eq]
  exact (orderly_run env options activities).depth tenantID limits hlimits hpositive

def oneJobEach : Options :=
  { defaultOptions with defaultTenantDepth := 1, depthPositive := by decide }

theorem admission_cap_full :
    let db := (run plainEnv (freshStore oneJobEach) [plainJob 1 [], plainJob 2 []]).db
    ∃ limits, db.tenantLimits.get? "default" = some limits ∧ limits.maxDepth = 1 ∧
      (activeJobs db "default" : Int) ≤ limits.maxDepth := by
  intro db
  obtain ⟨limits, hlimits, hdepth⟩ :
      ∃ limits, db.tenantLimits.get? "default" = some limits ∧ limits.maxDepth = 1 := ⟨_, rfl, rfl⟩
  exact ⟨limits, hlimits, hdepth,
    admission_cap plainEnv oneJobEach _ "default" limits hlimits (by omega)⟩

end RailYard.Properties
