import RailYard.Refinement.Receipts
import RailYard.Properties.Leases

/-! Completions in every run: the first answer for an attempt is final, and a
batch is its items one after the other. -/
namespace RailYard.Properties
open Domain Store
open Refinement

/-- For every run, once a completion has been answered with a receipt, every
later completion under the same lease changes nothing; with the same body it
gets the same receipt, marked as a duplicate, and with another body none. -/
theorem stable_receipts (env : Env) (options : Options) (activities : List Activity)
    (collisionFree : Function.Injective env.sha256) :
    ((completionHistory env (freshStore options) activities).Pairwise fun earlier later =>
      ∀ receipt, earlier.result = .ok receipt → Repeats earlier.item receipt later) ∧
      ∀ store reading, Reported env store reading :=
  ⟨history_repeats collisionFree (archive_fresh options) activities, reported env⟩

/-- The worker of `acquireTwo` reports on the first job. -/
def firstCompletion (success : Bool) : Completion where
  jobID := newID (entropyOf 1)
  attemptNo := 1
  generation := 1
  token := newID (entropyOf 0)
  workerID := "worker"
  success := success
  retryable := true
  outputDigest := ""

/-- A success is reported twice, and then a failure in its place. -/
theorem stable_receipts_repeated :
    let history := completionHistory plainEnv (freshStore defaultOptions)
      [plainJob 1 [], acquireTwo, .call ⟨.complete (firstCompletion true), ⟨2, 0⟩⟩,
        .call ⟨.completeBatch [firstCompletion true, firstCompletion false], ⟨3, 0⟩⟩]
    ∃ first second third receipt, history = [first, second, third] ∧
      first.result = .ok receipt ∧ second.result = .ok { receipt with duplicate := true } ∧
      third.result = .error .staleLease := by
  intro history
  have hall : history.Pairwise fun earlier later => ∀ receipt,
      earlier.result = .ok receipt → Repeats earlier.item receipt later :=
    (stable_receipts plainEnv defaultOptions _ List.reverse_injective).1
  have hitems : history.map Turn.item =
      [firstCompletion true, firstCompletion true, firstCompletion false] := by
    decide +kernel
  have hfirst : history.head?.bind (fun turn => turn.result.toOption.map fun _ => ()) =
      some () := by
    decide +kernel
  clear_value history
  obtain ⟨first, _, rfl, hitem, hitems⟩ := List.map_eq_cons_iff.mp hitems
  obtain ⟨second, _, rfl, hitem', hitems⟩ := List.map_eq_cons_iff.mp hitems
  obtain ⟨third, _, rfl, hitem'', hitems⟩ := List.map_eq_cons_iff.mp hitems
  rw [List.map_eq_nil_iff] at hitems
  subst hitems
  simp only [List.pairwise_cons, List.mem_cons, List.not_mem_nil, or_false, forall_eq_or_imp,
    forall_eq] at hall
  cases hresult : first.result with
  | error error =>
    rw [List.head?_cons, Option.bind_some, hresult] at hfirst
    cases hfirst
  | ok receipt =>
    have hsecond := (hall.1.1 receipt hresult ⟨by rw [hitem, hitem'], by rw [hitem, hitem']⟩).2
    have hthird := (hall.1.2 receipt hresult ⟨by rw [hitem, hitem'']; rfl,
      by rw [hitem, hitem'']; rfl⟩).2
    rw [hitem, hitem', if_pos rfl] at hsecond
    rw [hitem, hitem'', if_neg (by decide)] at hthird
    exact ⟨first, second, third, receipt, rfl, hresult, hsecond, hthird⟩

/-- The batch call does what the single calls do one after the other at the same
time, or nothing. -/
structure BatchFolds {α β : Type} (env : Env) (store : StoreState) (reading : Reading) (op : α → Op)
    (reply : β → Reply) (batch : List α → Op) (replies : List (Except Error β) → Reply)
    (items : List α) : Prop where
  together : (∀ result ∈ (callEach env reading op items store).1, tolerable result = true) →
    ∃ results, step env store ⟨batch items, reading⟩ =
        (.ok (replies results), (callEach env reading op items store).2) ∧
      results.map (Except.map reply) = (callEach env reading op items store).1
  refused : (∃ result ∈ (callEach env reading op items store).1, tolerable result = false) →
    (∃ error, (step env store ⟨batch items, reading⟩).1 = .error error) ∧
      (step env store ⟨batch items, reading⟩).2.db = store.db

theorem tolerable_map {α β : Type} (view : α → β) (result : Except Error α) :
    tolerable (result.map view) = tolerable result := by
  cases result <;> rfl

theorem folds_of_turns {α β : Type} {env : Env} {store : StoreState} {reading : Reading}
    {op : α → Op} {reply : β → Reply} {batch : List α → Op}
    {replies : List (Except Error β) → Reply} {items : List α} {body : Time → α → Tx β}
    (single : Single env op body reply reading)
    (batched : Batched env batch body replies reading items)
    (clean : ∀ now, StaleClean (body now)) (hsome : items ≠ []) :
    BatchFolds env store reading op reply batch replies items := by
  have heach := single.callEach_eq store items hsome
  dsimp only at heach
  constructor
  · rw [heach]
    intro htolerable
    refine ⟨_, batched.step_ok clean store fun turn hturn => ?_, List.map_map ..⟩
    have hresult := htolerable _ (List.mem_map_of_mem hturn)
    rwa [tolerable_map] at hresult
  · rw [heach]
    rintro ⟨result, hresult, hrefused⟩
    obtain ⟨turn, hturn, rfl⟩ := List.mem_map.mp hresult
    rw [tolerable_map] at hrefused
    exact batched.step_refused clean store ⟨turn, hturn, hrefused⟩

/-- In every reachable state, batches of completions and of starts do what the
single calls do one after the other at the same time, unless one of them fails
for another reason than a stale lease; then they do nothing. A stale item
leaves no trace. -/
theorem batch_fold (env : Env) (options : Options) (activities : List Activity)
    (reading : Reading) :
    let store := run env (freshStore options) activities
    (∀ completions : List Completion, 0 < completions.length →
      completions.length ≤ maxCompletionBatchSize →
      BatchFolds env store reading .complete .completed .completeBatch .completions completions) ∧
    (∀ workerID (refs : List LeaseRef), 0 < refs.length →
      refs.length ≤ maxAttemptStartBatchSize →
      BatchFolds env store reading (.markRunning workerID) (fun _ => .done)
        (.markRunningBatch workerID) .started refs) ∧
    ∀ now, (StaleClean fun completion => applyCompletionTx env.sha256 completion now) ∧
      ∀ workerID, StaleClean fun ref => markRunningTx env.sha256 workerID ref now := by
  intro store
  refine ⟨fun completions hsome hsize => ?_, fun workerID refs hsome hsize => ?_, fun now =>
    ⟨clean_applyCompletionTx env.sha256 now,
      fun workerID => clean_markRunningTx env.sha256 workerID now⟩⟩
  · exact folds_of_turns single_complete (batched_completeBatch hsome hsize)
      (clean_applyCompletionTx env.sha256) (List.ne_nil_of_length_pos hsome)
  · exact folds_of_turns (fun _ _ => rfl)
      ⟨_, fun _ => execute_of_early (batchError_none hsome hsize) rfl⟩
      (clean_markRunningTx env.sha256 workerID) (List.ne_nil_of_length_pos hsome)

/-- A batch with a completion, its repetition and a stale one. -/
theorem batch_fold_repeated :
    let store := run plainEnv (freshStore defaultOptions) [plainJob 1 [], acquireTwo]
    let items := [firstCompletion true, firstCompletion true, firstCompletion false]
    ∃ results, step plainEnv store ⟨.completeBatch items, ⟨2, 0⟩⟩ =
        (.ok (.completions results), (callEach plainEnv ⟨2, 0⟩ .complete items store).2) ∧
      results.map (Except.map .completed) =
        (callEach plainEnv ⟨2, 0⟩ .complete items store).1 := by
  intro store items
  have hfolds := (batch_fold plainEnv defaultOptions [plainJob 1 [], acquireTwo] ⟨2, 0⟩).1 items
    (by decide) (by decide)
  exact hfolds.together (by decide +kernel)

end RailYard.Properties
