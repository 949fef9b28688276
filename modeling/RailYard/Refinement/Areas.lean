import RailYard.Refinement.Bystanders
import RailYard.Refinement.Runs

/-! What a view that lies outside the area of a call keeps, and what a relation
that every call keeps says of a run. -/
namespace RailYard.Refinement
open Library Library.Transaction Domain Store
open Lifecycle Relation

variable {γ : Type}

def Outside (view : Database → γ) : Area → Prop
  | .lives => True
  | .workers => ∀ db table, view { db with workers := table } = view db
  | .submissions => ∀ db table, view { db with idempotencyRequests := table } = view db
  | .triggers => (∀ db table, view { db with idempotencyRequests := table } = view db) ∧
      ∀ db table, view { db with cronTriggers := table } = view db
  | .occurrences => (∀ db table, view { db with cronOccurrences := table } = view db) ∧
      ∀ db table, view { db with cronTriggers := table } = view db
  | .deliveries => ∀ db table, view { db with redisDeliveries := table } = view db
  | .controls => Deaf view ∧ (∀ db table, view { db with operationRequests := table } = view db) ∧
      ∀ db table, view { db with auditEvents := table } = view db
  | .decisions => Unscheduled view

theorem Outside.writes {area : Area} (outside : Outside view area) (now : Time) :
    Writes now note (Unchanged view) area := by
  cases area with
  | lives => trivial
  | workers => exact outside
  | submissions => exact outside
  | triggers => exact ⟨outside.1, fun db _ _ _ => outside.2 db _⟩
  | occurrences => exact ⟨fun db _ _ _ => outside.1 db _, fun db _ _ _ => outside.2 db _⟩
  | deliveries => exact fun db _ _ _ => outside db _
  | controls =>
    exact ⟨⟨fun db _ _ _ _ => outside.2.1 db _, fun db _ _ _ _ => outside.2.2 db _⟩,
      outside.1.audible now⟩
  | decisions => exact Unscheduled.scheduled outside

theorem step_relates [IsPreorder Database related]
    (lives : ∀ now, Lives now (admissionStorage call.op) related)
    (writes : ∀ now, Writes now (noteStorage call.op) related (area call.op))
    (links : redrives call.op = true → Links related) :
    related store.db (step env store call).2.db := by
  rcases step_cases env store call with hsame | ⟨now, reply, _, _, hrun⟩
  · rw [hsame]
    exact refl_of related _
  · exact (program_relates (lives now) (writes now) links).ok hrun

theorem step_preserves (aloof : Aloof view) (outside : Outside view (area call.op)) :
    view (step env store call).2.db = view store.db :=
  have hunchanged : Unchanged view store.db (step env store call).2.db :=
    step_relates (fun now => aloof.lives now _) outside.writes fun _ => aloof.links
  hunchanged

section Jobs

def JobsKept (db db' : Database) : Prop :=
  ∀ id, (db.jobs.get? id).isSome → (db'.jobs.get? id).isSome

instance : IsPreorder Database JobsKept where
  refl _ _ := id
  trans _ _ _ first second id h := second id (first id h)

theorem jobsKept_insert (db : Database) (id : String) (row : JobRow) :
    JobsKept db { db with jobs := db.jobs.insert id row } := by
  intro other h
  obtain ⟨found, hfound⟩ := Option.isSome_iff_exists.mp h
  exact Option.isSome_iff_exists.mpr
    ⟨found, Table.get?_insert_of_get? db.jobs id row hfound⟩

theorem jobsKept_modify (db : Database) (id : String) (change : JobRow → JobRow) :
    JobsKept db { db with jobs := db.jobs.modify id change } := by
  intro other h
  change ((db.jobs.modify id change).get? other).isSome
  rw [Table.get?_modify]
  split
  · rename_i heq
    rw [Option.isSome_map, ← heq]
    exact h
  · exact h

theorem jobsKept_lives (now : Time) : Lives now admission JobsKept := by
  refine ⟨⟨⟨fun db id row _ _ => jobsKept_insert db id row, ?_, ?_, ?_, ?_, ?_, ?_, ?_⟩,
    fun db id change _ => jobsKept_modify db id change, ?_, ?_, ?_⟩, ?_, ?_⟩
  all_goals intros; exact refl_of JobsKept _

theorem jobsKept_writes (now : Time) (area : Area) : Writes now note JobsKept area := by
  cases area <;> dsimp only [Writes] <;> repeat' constructor
  all_goals intros; exact refl_of JobsKept _

theorem jobsKept_links : Links JobsKept := fun _ _ _ _ => id

theorem jobsKept_step (env : Env) (store : StoreState) (call : Call) :
    JobsKept store.db (step env store call).2.db :=
  step_relates jobsKept_lives (fun now => jobsKept_writes now _) fun _ => jobsKept_links

end Jobs

theorem run_related (related : Database → Database → Prop) (refl : ∀ db, related db db)
    (trans : ∀ {first middle last}, related first middle → related middle last →
      related first last)
    (hstep : ∀ store call, related store.db (step env store call).2.db) (store : StoreState)
    (activities : List Activity) : related store.db (run env store activities).db := by
  obtain ⟨calls, heq⟩ := exists_calls env store activities
  rw [heq]
  clear heq
  induction calls generalizing store with
  | nil => exact refl store.db
  | cons call rest ih => exact trans (hstep store call) (ih _)

theorem run_kept {motive : Database → Prop} {store : StoreState}
    (hstep : ∀ store call, Sound (yardOf store.db) → motive store.db →
      motive (step env store call).2.db)
    (sound : Sound (yardOf store.db)) (hstart : motive store.db) (activities : List Activity) :
    motive (run env store activities).db := by
  refine (run_related (fun db db' => Sound (yardOf db) ∧ motive db →
    Sound (yardOf db') ∧ motive db') (fun _ h => h) (fun h h' hfirst => h' (h hfirst)) ?_ store
    activities ⟨sound, hstart⟩).2
  intro store call ⟨hsound, hmotive⟩
  have hsteps : ReflTransGen (Step (Policy.during anyPolicy call.op)) (yardOf store.db)
      (yardOf (step env store call).2.db) :=
    step_any hsound
  exact ⟨hsound.steps hsteps, hstep store call hsound hmotive⟩

end RailYard.Refinement
