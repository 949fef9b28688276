import RailYard.Refinement.System
import RailYard.Lifecycle.Labels

/-! Runs of the store. The trigger loops come down to the calls they make, so
every run is a sequence of changes of the yard, and the invariants of yards
hold in every state that is reached. -/
namespace RailYard.Refinement
open Library.Transaction Domain Store
open Lifecycle Relation

theorem call_ok (granting : grantsLeases call.op = true → policy.granting)
    (sound : Sound (yardOf store.db)) (h : Keeps env policy store call) :
    ReflTransGen (Step policy) (yardOf store.db) (yardOf (step env store call).2.db) := by
  have hpermits : (Policy.during policy call.op).Permits policy :=
    ⟨granting, id, id, fun _ _ _ => id, fun _ _ _ _ => id⟩
  exact ReflTransGen.mono (fun _ _ => Step.permits hpermits) _ _
    (step_ok sound h)

def triggered : Op → Bool
  | .submitJob .. | .recordOccurrence .. | .recordDelivery .. => true
  | _ => false

theorem keeps_of_triggered (h : triggered call.op = true) : Keeps env policy store call := by
  obtain ⟨op, reading⟩ := call
  cases op
  case submitJob | recordOccurrence | recordDelivery =>
    exact ⟨fun _ => rfl, fun _ => rfl, (fun hfalse => by cases hfalse),
      fun _ hfalse => by cases hfalse⟩
  all_goals cases h

theorem grants_of_triggered (h : triggered op = true) : grantsLeases op = false := by
  cases op <;> first | rfl | cases h

theorem runCalls_ok (sound : Sound (yardOf store.db)) (h : ∀ call ∈ calls, triggered call.op = true)
    :
    ReflTransGen (Step policy) (yardOf store.db) (yardOf (runCalls env store calls).db) := by
  induction calls generalizing store with
  | nil => exact .refl
  | cons call rest ih =>
    have hcall := h call (List.mem_cons_self ..)
    have hfirst : ReflTransGen (Step policy) (yardOf store.db)
        (yardOf (step env store call).2.db) :=
      call_ok (fun hgrants => by rw [grants_of_triggered hcall] at hgrants; cases hgrants) sound
        (keeps_of_triggered hcall)
    exact hfirst.trans (ih (sound.steps hfirst) fun other hother =>
      h other (List.mem_cons_of_mem _ hother))

def ByCalls (env : Env) (store store' : StoreState) : Prop :=
  ∃ calls : List Call, (∀ call ∈ calls, triggered call.op = true) ∧
    store' = runCalls env store calls

namespace ByCalls

theorem refl (store : StoreState) : ByCalls env store store :=
  ⟨[], fun _ hmem => (by cases hmem), rfl⟩

theorem trans (h : ByCalls env store store') (h' : ByCalls env store' store'') :
    ByCalls env store store'' := by
  obtain ⟨calls, hcalls, rfl⟩ := h
  obtain ⟨calls', hcalls', rfl⟩ := h'
  refine ⟨calls ++ calls', ?_, ?_⟩
  · intro call hmem
    rcases List.mem_append.mp hmem with hmem | hmem
    · exact hcalls call hmem
    · exact hcalls' call hmem
  · unfold runCalls
    rw [List.foldl_append]

theorem single (call : Call) (h : triggered call.op = true)
    (hstep : (step env store call).2 = store') : ByCalls env store store' := by
  refine ⟨[call], fun other hmem => ?_, hstep.symm⟩
  rw [List.mem_singleton.mp hmem]
  exact h

end ByCalls

theorem perform_bind_pure {α β : Type} (store : StoreState) (reading : Reading)
    (program : Time → Tx α) (view : α → β) :
    (store.perform reading fun now => program now >>= fun value => pure (view value)).2 =
      (store.perform reading program).2 := by
  unfold StoreState.perform
  dsimp only
  rw [commit_map]

theorem transact_bind_pure {α β : Type} (store : StoreState) (program : Tx α) (view : α → β) :
    (store.transact (program >>= fun value => pure (view value))).2 =
      (store.transact program).2 := by
  unfold StoreState.transact
  dsimp only
  rw [commit_map]

theorem byCalls_submit (env : Env) (store : StoreState) (reading : Reading)
    (submission : Submission) (entropy : Entropy) :
    ByCalls env store
      (store.perform reading (submitJob store.options submission entropy)).2 :=
  .single ⟨.submitJob submission entropy, reading⟩ rfl
    (perform_bind_pure store reading (submitJob store.options submission entropy)
      fun result => Reply.job result.1 result.2)

theorem byCalls_fireTrigger (env : Env) (now : Time) (elapsed : Int) (entropy : Entropy)
    (store : StoreState) (entry : String × CronRow) :
    ByCalls env store (fireTrigger env now elapsed entropy store entry).2 := by
  have hsubmit := byCalls_submit env store ⟨now, elapsed⟩ (cronSubmission env.sha256 entry) entropy
  unfold fireTrigger
  split
  · rename_i heq
    rw [heq] at hsubmit
    exact hsubmit
  · rename_i job _ submitted heq
    rw [heq] at hsubmit
    split
    · exact hsubmit
    · rename_i next _
      have hrecord : ByCalls env submitted _ := .single
        ⟨.recordOccurrence entry.1 (timeFromDB entry.2.nextFireAt) job.id (next now) now, ⟨0, 0⟩⟩
        rfl (transact_bind_pure submitted _ fun _ => Reply.done)
      split
      · rename_i heq
        rw [heq] at hrecord
        exact hsubmit.trans hrecord
      · rename_i heq
        rw [heq] at hrecord
        exact hsubmit.trans hrecord

theorem byCalls_fireTriggers (env : Env) (now : Time) (elapsed : Nat → Int)
    (entropy : Nat → Entropy) (index : Nat) (store : StoreState)
    (entries : List (String × CronRow)) :
    ByCalls env store (fireTriggers env now elapsed entropy index store entries).2 := by
  induction entries generalizing index store with
  | nil => exact .refl store
  | cons entry rest ih =>
    have hfire := byCalls_fireTrigger env now (elapsed index) (entropy index) store entry
    unfold fireTriggers
    split
    · rename_i heq
      rw [heq] at hfire
      exact hfire
    · rename_i fired heq
      rw [heq] at hfire
      have hrest := ih (index + 1) fired
      split
      · rename_i heq
        rw [heq] at hrest
        exact hfire.trans hrest
      · rename_i heq
        rw [heq] at hrest
        exact hfire.trans hrest

theorem byCalls_advance (env : Env) (store : StoreState) (activity : Activity)
    (h : ∀ call, activity ≠ .call call) : ByCalls env store (advance env store activity) := by
  cases activity with
  | call call => exact (h call rfl).elim
  | fireDueCron now limit elapsed entropy =>
    change ByCalls env store (fireDueCron env store now limit elapsed entropy).2
    unfold fireDueCron
    split
    · exact .refl store
    · exact byCalls_fireTriggers env now elapsed entropy 0 store _
  | deliverRedis delivery now elapsed entropy =>
    change ByCalls env store (deliverRedis env store delivery now elapsed entropy).2
    unfold deliverRedis
    split
    · exact .refl store
    · rename_i submission _
      have hsubmit := byCalls_submit env store ⟨now, elapsed⟩ submission entropy
      split
      · rename_i heq
        rw [heq] at hsubmit
        exact hsubmit
      · rename_i job _ submitted heq
        rw [heq] at hsubmit
        exact hsubmit.trans (.single ⟨.recordDelivery delivery.triggerID delivery.stream
          delivery.messageID job.id now, ⟨0, 0⟩⟩ rfl
          (transact_bind_pure submitted _ fun _ => Reply.done))

def KeepsTo (env : Env) (policy : Policy) (store : StoreState) : Activity → Prop
  | .call call => Keeps env policy store call
  | _ => True

theorem advance_ok (granting : policy.granting) (sound : Sound (yardOf store.db))
    (h : KeepsTo env policy store activity) :
    ReflTransGen (Step policy) (yardOf store.db) (yardOf (advance env store activity).db) := by
  by_cases hcall : ∃ call, activity = .call call
  · obtain ⟨call, rfl⟩ := hcall
    exact call_ok (fun _ => granting) sound h
  · obtain ⟨calls, hcalls, heq⟩ :=
      byCalls_advance env store activity fun call heq => hcall ⟨call, heq⟩
    rw [heq]
    exact runCalls_ok sound hcalls

theorem runCalls_append (env : Env) (store : StoreState) (calls calls' : List Call) :
    runCalls env store (calls ++ calls') = runCalls env (runCalls env store calls) calls' := by
  unfold runCalls
  rw [List.foldl_append]

theorem run_calls (env : Env) (store : StoreState) (calls : List Call) :
    run env store (calls.map .call) = runCalls env store calls := by
  unfold run runCalls
  rw [List.foldl_map]
  rfl

theorem loops_kept {γ : Type} {view : Database → γ}
    (hcall : ∀ store call, triggered call.op = true →
      view (step env store call).2.db = view store.db)
    {store : StoreState} {activity : Activity} (h : ∀ call, activity ≠ .call call) :
    view (advance env store activity).db = view store.db := by
  obtain ⟨calls, hcalls, heq⟩ := byCalls_advance env store activity h
  rw [heq]
  clear heq
  induction calls generalizing store with
  | nil => rfl
  | cons call rest ih =>
    rw [List.forall_mem_cons] at hcalls
    exact (ih hcalls.2).trans (hcall store call hcalls.1)

theorem exists_calls (env : Env) (store : StoreState) (activities : List Activity) :
    ∃ calls, run env store activities = runCalls env store calls := by
  induction activities generalizing store with
  | nil => exact ⟨[], rfl⟩
  | cons activity rest ih =>
    obtain ⟨calls, hrest⟩ := ih (advance env store activity)
    have hfirst : ∃ first, advance env store activity = runCalls env store first := by
      by_cases hcall : ∃ call, activity = .call call
      · obtain ⟨call, rfl⟩ := hcall
        exact ⟨[call], rfl⟩
      · obtain ⟨first, _, heq⟩ :=
          byCalls_advance env store activity fun call heq => hcall ⟨call, heq⟩
        exact ⟨first, heq⟩
    obtain ⟨first, heq⟩ := hfirst
    refine ⟨first ++ calls, ?_⟩
    rw [runCalls_append, ← heq]
    exact hrest

def Along (env : Env) (condition : StoreState → Activity → Prop) :
    StoreState → List Activity → Prop
  | _, [] => True
  | store, activity :: rest =>
    condition store activity ∧ Along env condition (advance env store activity) rest

theorem Along.imp (himp : ∀ store activity, condition store activity → condition' store activity)
    (h : Along env condition store activities) :
    Along env condition' store activities := by
  induction activities generalizing store with
  | nil => trivial
  | cons activity rest ih => exact ⟨himp store activity h.1, ih h.2⟩

theorem Along.of_forall (h : ∀ store activity, condition store activity) (store : StoreState)
    (activities : List Activity) : Along env condition store activities := by
  induction activities generalizing store with
  | nil => trivial
  | cons activity rest ih => exact ⟨h store activity, ih _⟩

theorem run_ok (granting : policy.granting) (sound : Sound (yardOf store.db))
    (h : Along env (KeepsTo env policy) store activities) :
    ReflTransGen (Step policy) (yardOf store.db) (yardOf (run env store activities).db) := by
  induction activities generalizing store with
  | nil => exact .refl
  | cons activity rest ih =>
    have hfirst := advance_ok granting sound h.1
    exact hfirst.trans (ih (sound.steps hfirst) h.2)

theorem keepsTo_any (store : StoreState) (activity : Activity) :
    KeepsTo env anyPolicy store activity := by
  cases activity with
  | call call =>
    exact ⟨fun hfalse => hfalse.elim, fun hfalse => hfalse.elim, fun _ _ _ _ _ => trivial,
      fun cause _ => anyPolicy_allows cause⟩
  | fireDueCron => trivial
  | deliverRedis => trivial

theorem sound_fresh (options : Options) : Sound (yardOf (freshStore options).db) := by
  change Sound (yardOf .empty)
  rw [yardOf_empty]
  exact sound_empty

theorem steps_run (sound : Sound (yardOf store.db)) (activities : List Activity) :
    ReflTransGen (Step anyPolicy) (yardOf store.db) (yardOf (run env store activities).db) :=
  run_ok trivial sound (.of_forall keepsTo_any store activities)

theorem sound_run (env : Env) (options : Options) (activities : List Activity) :
    Sound (yardOf (run env (freshStore options) activities).db) :=
  (sound_fresh options).steps (steps_run (sound_fresh options) activities)

theorem orderly_run (env : Env) (options : Options) (activities : List Activity) :
    Orderly (yardOf (run env (freshStore options) activities).db) :=
  orderly_empty.steps (sound_fresh options).toCoherent
    (steps_run (sound_fresh options) activities)

theorem labelled_run (env : Env) (options : Options) (activities : List Activity) :
    Labelled edgePolicy (yardOf (run env (freshStore options) activities).db) := by
  have hkeeps : ∀ store activity, KeepsTo env edgePolicy store activity := by
    intro store activity
    cases activity with
    | call call =>
      exact ⟨fun hfalse => hfalse.elim, fun hfalse => hfalse.elim, fun _ _ _ _ _ => trivial,
        fun cause _ => edgePolicy_allows cause⟩
    | fireDueCron => trivial
    | deliverRedis => trivial
  have hsteps := run_ok trivial (sound_fresh options)
    (Along.of_forall hkeeps (freshStore options) activities)
  have hempty : Labelled edgePolicy (yardOf (freshStore options).db) := fun _ => List.IsChain.nil
  exact hempty.micros (sound_fresh options).chronicle (micros_of_steps hsteps)

theorem run_append (env : Env) (store : StoreState) (first second : List Activity) :
    run env store (first ++ second) = run env (run env store first) second :=
  List.foldl_append ..

theorem evolves_run (env : Env) (options : Options) (first second : List Activity) :
    Evolves (yardOf (run env (freshStore options) first).db)
      (yardOf (run env (freshStore options) (first ++ second)).db) := by
  rw [run_append]
  exact evolves_of_micros (micros_of_steps (steps_run (sound_run env options first) second))

end RailYard.Refinement
