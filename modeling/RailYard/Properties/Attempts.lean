import RailYard.Lifecycle.Budget
import RailYard.Refinement.Histories
import RailYard.Properties.DeadLetters

/-! Jobs over whole runs of the store: how they live, how often they are
attempted, and when again. -/
namespace RailYard.Properties
open Library Domain Store Lifecycle Refinement Relation

theorem store_refines_lifecycle (env : Env) (options : Options) (first second : List Activity) :
    let yard := yardOf (run env (freshStore options) first).db
    let yard' := yardOf (run env (freshStore options) (first ++ second)).db
    ReflTransGen (Step anyPolicy) .empty yard ∧ ReflTransGen (Step anyPolicy) yard yard' ∧
      Sound yard ∧ Orderly yard := by
  have hsound := sound_run env options first
  refine ⟨?_, ?_, hsound, orderly_run env options first⟩
  · rw [← yardOf_empty]
    exact steps_run (sound_fresh options) first
  · rw [run_append]
    exact steps_run hsound second

/-- No dead letter is deleted, and nothing of it changes but the link to the job made
from it. -/
def LettersKept (db db' : Database) : Prop :=
  ∀ id row, db.deadLetters.get? id = some row →
    ∃ link, db'.deadLetters.get? id = some { row with redrivenJobID := link }

instance : IsPreorder Database LettersKept where
  refl _ _ row hrow := ⟨row.redrivenJobID, hrow⟩
  trans _ _ _ first second id row hrow := by
    obtain ⟨_, hlink⟩ := first id row hrow
    obtain ⟨link, hlink'⟩ := second id _ hlink
    exact ⟨link, hlink'⟩

theorem lettersKept_lives (now : Time) : Lives now admission LettersKept := by
  refine ⟨⟨⟨?_, ?_, ?_, fun db id row _ _ other old hold => ⟨old.redrivenJobID,
    Table.get?_insert_of_get? db.deadLetters id row hold⟩, ?_, ?_, ?_, ?_⟩, ?_, ?_, ?_, ?_⟩, ?_, ?_⟩
  all_goals intros; exact refl_of LettersKept _

theorem lettersKept_writes (now : Time) (area : Area) : Writes now note LettersKept area := by
  cases area <;> dsimp only [Writes] <;> repeat' constructor
  all_goals intros; exact refl_of LettersKept _

theorem lettersKept_links : Links LettersKept := by
  intro db id createdID other row hrow
  change ∃ link, (db.deadLetters.modify id _).get? other = _
  rw [Table.get?_modify]
  split
  · next hid =>
    rw [← hid, hrow]
    exact ⟨some createdID, rfl⟩
  · exact ⟨row.redrivenJobID, hrow⟩

theorem attempts_within_budget (env : Env) (options : Options) (activities : List Activity) :
    Budgeted (yardOf (run env (freshStore options) activities).db) :=
  preserved Budgeted.micro (micros_of_steps (steps_run (sound_fresh options) activities))
    fun _ _ hrow => nomatch hrow

def delayCap (attempt : Int) : Int := caps.getD (min (attempt - 1).toNat (caps.length - 1)) 0

theorem delay_bounds (h : delay sha256 jobID attempt = .ok wait) :
    8 * delayCap attempt ≤ 10 * wait ∧ wait ≤ delayCap attempt := by
  unfold delay at h
  split_ifs at h
  cases h
  have hpoints : 8000 ≤ basisPoints sha256 jobID attempt ∧
      basisPoints sha256 jobID attempt ≤ 10000 := by
    unfold basisPoints
    omega
  have hindex : min (attempt - 1).toNat (caps.length - 1) ≤ 3 := Nat.min_le_right _ _
  unfold delayCap
  generalize basisPoints sha256 jobID attempt = points at hpoints ⊢
  generalize min (attempt - 1).toNat (caps.length - 1) = index at hindex ⊢
  rcases index with _ | _ | _ | _ | index <;>
    simp only [caps, second, List.getD_cons_zero, List.getD_cons_succ, List.getD_nil] <;> omega

/-- A job that the call puts off is available again after 80% to 100% of the cap. -/
def Delays (env : Env) (store : StoreState) (call : Call) : Prop :=
  ∀ id row, (step env store call).2.db.jobs.get? id = some row → row.state = .retrying →
    store.db.jobs.get? id = some row ∨ ∃ wait, delay env.sha256 id row.attemptNo = .ok wait ∧
      row.availableAt = timeToDB (callTime store call + wait) ∧
      8 * delayCap row.attemptNo ≤ 10 * wait ∧ wait ≤ delayCap row.attemptNo

theorem retries_delayed (env : Env) (options : Options) (activities : List Activity)
    (call : Call) : Delays env (run env (freshStore options) activities) call := by
  have sound := sound_run env options activities
  generalize run env (freshStore options) activities = store at sound ⊢
  let policy : Policy := { backoff := Backoff env.sha256 (callTime store call) }
  have hsteps : ReflTransGen (Step (Policy.during policy call.op)) _ _ := step_ok sound
    ⟨fun hfalse => hfalse.elim, fun hfalse => hfalse.elim, fun _ _ _ _ => id,
      fun _ _ _ _ _ _ _ => trivial⟩
  intro id row hrow hretrying
  rcases retrying_of_micros (micros_of_steps hsteps) hrow hretrying with
    hold | ⟨release, hrelease, htime⟩
  · exact .inl hold
  · unfold releaseAt at hrelease
    split at hrelease <;> cases hrelease
    next wait hwait => exact .inr ⟨wait, hwait, htime, delay_bounds hwait⟩

end RailYard.Properties
