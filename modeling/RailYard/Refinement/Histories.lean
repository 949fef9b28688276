import RailYard.Refinement.Areas

/-! The event log only grows. What is there keeps its place, its job, its type,
its state and its time; a redrive may rewrite payloads. -/
namespace RailYard.Refinement
open Domain Store

def outline (event : EventRow) : EventRow := { event with payload := [], storage := .blob }

theorem Reworded.outline_eq (h : Reworded event event') : outline event' = outline event := by
  obtain ⟨_, _, rfl⟩ := h
  rfl

def Continues (db db' : Database) : Prop := db.events.map outline <+: db'.events.map outline

instance : IsPreorder Database Continues where
  refl _ := List.prefix_rfl
  trans _ _ _ := List.IsPrefix.trans

theorem continues_add (db : Database) (event : EventRow) :
    Continues db { db with events := db.events ++ [event] } := by
  unfold Continues
  rw [List.map_append]
  exact List.prefix_append _ _

theorem continues_reword (db : Database) (h : ∀ event, Reworded event (change event)) :
    Continues db { db with events := db.events.map change } := by
  unfold Continues
  rw [List.map_map]
  have hsame : db.events.map (outline ∘ change) = db.events.map outline :=
    List.map_congr_left fun event _ => (h event).outline_eq
  rw [hsame]

theorem continues_lives (now : Time) : Lives now admission Continues := by
  refine ⟨⟨⟨?_, ?_, ?_, ?_, ?_, ?_, ?_, fun db event _ _ => continues_add db event⟩, ?_, ?_, ?_, ?_⟩,
    ?_, ?_⟩
  all_goals intros; exact refl_of Continues _

theorem continues_writes (now : Time) (area : Area) : Writes now note Continues area := by
  cases area
  case controls =>
    exact ⟨⟨fun db _ _ _ _ => refl_of Continues db, fun db _ _ _ _ => refl_of Continues db⟩,
      fun db event _ => continues_add db event, fun db _ h => continues_reword db h.2⟩
  all_goals dsimp only [Writes]; repeat' constructor
  all_goals intros; exact refl_of Continues _

theorem continues_run (env : Env) (store : StoreState) (activities : List Activity) :
    Continues store.db (run env store activities).db := by
  refine run_related Continues (refl_of Continues) (trans_of Continues) ?_ store activities
  intro store call
  exact step_relates continues_lives (fun now => continues_writes now _)
    fun _ => fun db _ _ => refl_of Continues db

end RailYard.Refinement
