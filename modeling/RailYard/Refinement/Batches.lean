import RailYard.Refinement.Runs

/-! Batches of completions and starts. All items share one transaction, in
which the loop goes on after a stale item; what they do together is what the
single calls do one after the other at the same time. -/
namespace RailYard.Refinement
open Library.Transaction Domain Store

variable {α β : Type} {env : Env} {db db' : Database}

structure Turn (α β : Type) where
  item : α
  before : Database
  result : Except Error β
  after : Database

def turns (body : α → Tx β) : List α → Database → List (Turn α β)
  | [], _ => []
  | item :: rest, db =>
    let outcome := commit (body item) db
    ⟨item, db, outcome.1, outcome.2⟩ :: turns body rest outcome.2

def lastState (db : Database) : List (Turn α β) → Database
  | [] => db
  | turn :: rest => lastState turn.after rest

def tolerable : Except Error β → Bool
  | .ok _ => true
  | .error error => Error.is .staleLease error

def StaleClean (body : α → Tx β) : Prop :=
  ∀ item db db' error, body item db = .error error db' → Error.is .staleLease error = true →
    db' = db

theorem batchTx_cons (clean : StaleClean body) (context : String) (index : Nat) (item : α)
    (rest : List α) (db : Database) (h : tolerable (commit (body item) db).1 = true) :
    batchTx context body index (item :: rest) db =
      (batchTx context body (index + 1) rest >>= fun results =>
        pure ((commit (body item) db).1 :: results)) (commit (body item) db).2 := by
  unfold commit at h ⊢
  rw [batchTx]
  cases hrun : body item db with
  | ok value db' =>
    have hattempt : attempt (body item) db = .ok (.ok value) db' := by
      unfold attempt
      rw [hrun]
    rw [bind_run hattempt]
  | error error db' =>
    rw [hrun] at h
    obtain rfl := clean item db db' error hrun h
    have hattempt : attempt (body item) db' = .ok (.error error) db' := by
      unfold attempt
      rw [hrun]
    rw [bind_run hattempt]
    exact bind_run (require_run _ _ h)

theorem batchTx_refused (context : String) (index : Nat) (item : α) (rest : List α) (db : Database)
    (h : tolerable (commit (body item) db).1 = false) :
    ∃ error db', batchTx context body index (item :: rest) db = .error error db' := by
  unfold commit at h
  rw [batchTx]
  cases hrun : body item db with
  | ok value db' =>
    rw [hrun] at h
    cases h
  | error error db' =>
    rw [hrun] at h
    have hattempt : attempt (body item) db = .ok (.error error) db' := by
      unfold attempt
      rw [hrun]
    rw [bind_run hattempt]
    exact ⟨_, _, bind_run_error (require_run_error _ _ (Bool.eq_false_iff.mp h))⟩

theorem batchTx_turns (clean : StaleClean body) (context : String) (index : Nat) (items : List α)
    (db : Database) (h : ∀ turn ∈ turns body items db, tolerable turn.result = true) :
    batchTx context body index items db =
      .ok ((turns body items db).map Turn.result) (lastState db (turns body items db)) := by
  induction items generalizing db index with
  | nil => rfl
  | cons item rest ih =>
    rw [batchTx_cons clean context index item rest db (h _ (List.mem_cons_self ..)),
      bind_run (ih _ _ fun turn hturn => h turn (List.mem_cons_of_mem _ hturn))]
    rfl

theorem batchTx_fails (clean : StaleClean body) (context : String) (index : Nat) (items : List α)
    (db : Database) (h : ∃ turn ∈ turns body items db, tolerable turn.result = false) :
    ∃ error db', batchTx context body index items db = .error error db' := by
  induction items generalizing db index with
  | nil =>
    obtain ⟨_, hturn, _⟩ := h
    cases hturn
  | cons item rest ih =>
    obtain ⟨turn, hturn, hrefused⟩ := h
    cases hfirst : tolerable (commit (body item) db).1 with
    | false => exact batchTx_refused context index item rest db hfirst
    | true =>
      rcases List.mem_cons.mp hturn with rfl | hturn
      · rw [hfirst] at hrefused
        cases hrefused
      · obtain ⟨error, db', hrest⟩ := ih (index + 1) _ ⟨turn, hturn, hrefused⟩
        rw [batchTx_cons clean context index item rest db hfirst, bind_run_error hrest]
        exact ⟨error, db', rfl⟩

theorem clean_applyCompletionTx (sha256 : Hash) (now : Time) :
    StaleClean fun completion => applyCompletionTx sha256 completion now :=
  fun _ _ _ _ => applyCompletionTx_stale

theorem clean_markRunningTx (sha256 : Hash) (workerID : String) (now : Time) :
    StaleClean fun ref => markRunningTx sha256 workerID ref now :=
  fun _ _ _ _ h _ => markRunningTx_error h

def written (store : StoreState) (reading : Reading) (db : Database) : StoreState :=
  { store with db := db, clock := store.clock.tick reading }

theorem writeTime_tick (clock : Clock) (reading : Reading) :
    (clock.tick reading).writeTime reading = clock.writeTime reading := by
  unfold Clock.tick Clock.writeTime
  dsimp only
  rw [← max_assoc, max_self]

theorem tick_tick (clock : Clock) (reading : Reading) :
    (clock.tick reading).tick reading = clock.tick reading := by
  have htime := writeTime_tick clock reading
  unfold Clock.tick at htime ⊢
  simp only [htime]

/-- The same call for each item, one after the other, all at the time of one
reading. -/
def callEach (env : Env) (reading : Reading) (op : α → Op) :
    List α → StoreState → List (Except Error Reply) × StoreState
  | [], store => ([], store)
  | item :: rest, store =>
    let first := step env store ⟨op item, reading⟩
    let others := callEach env reading op rest first.2
    (first.1 :: others.1, others.2)

section Singles

variable {op : α → Op} {body : Time → α → Tx β} {reply : β → Reply} {reading : Reading}

def Single (env : Env) (op : α → Op) (body : Time → α → Tx β) (reply : β → Reply)
    (reading : Reading) : Prop :=
  ∀ store item, step env store ⟨op item, reading⟩ =
    store.perform reading fun now => body now item >>= fun value => pure (reply value)

theorem Single.step_eq (h : Single env op body reply reading) (store : StoreState) (item : α) :
    let outcome := commit (body (store.clock.writeTime reading) item) store.db
    step env store ⟨op item, reading⟩ =
      (outcome.1.map reply, written store reading outcome.2) := by
  intro outcome
  rw [h]
  unfold StoreState.perform
  dsimp only
  rw [commit_map]
  rfl

theorem Single.callEach_written (h : Single env op body reply reading) (store : StoreState)
    (items : List α) (db : Database) :
    let all := turns (body (store.clock.writeTime reading)) items db
    callEach env reading op items (written store reading db) =
      (all.map fun turn => turn.result.map reply, written store reading (lastState db all)) := by
  induction items generalizing db with
  | nil => rfl
  | cons item rest ih =>
    unfold callEach
    have htime : (written store reading db).clock.writeTime reading =
        store.clock.writeTime reading := writeTime_tick store.clock reading
    rw [h.step_eq, htime]
    dsimp only [written] at ih ⊢
    rw [tick_tick, ih]
    rfl

theorem Single.callEach_eq (h : Single env op body reply reading) (store : StoreState)
    (items : List α) (hsome : items ≠ []) :
    let all := turns (body (store.clock.writeTime reading)) items store.db
    callEach env reading op items store =
      (all.map fun turn => turn.result.map reply,
        written store reading (lastState store.db all)) := by
  cases items with
  | nil => exact (hsome rfl).elim
  | cons item rest =>
    unfold callEach
    rw [h.step_eq]
    dsimp only
    rw [h.callEach_written]
    rfl

end Singles

section Batches

variable {batch : List α → Op} {body : Time → α → Tx β} {replies : List (Except Error β) → Reply}
  {reading : Reading} {items : List α}

def Batched (env : Env) (batch : List α → Op) (body : Time → α → Tx β)
    (replies : List (Except Error β) → Reply) (reading : Reading) (items : List α) : Prop :=
  ∃ context, ∀ store, step env store ⟨batch items, reading⟩ =
    store.perform reading fun now =>
      batchTx context (body now) 0 items >>= fun results => pure (replies results)

theorem Batched.step_ok (h : Batched env batch body replies reading items)
    (clean : ∀ now, StaleClean (body now)) (store : StoreState)
    (htolerable : ∀ turn ∈ turns (body (store.clock.writeTime reading)) items store.db,
      tolerable turn.result = true) :
    let all := turns (body (store.clock.writeTime reading)) items store.db
    step env store ⟨batch items, reading⟩ =
      (.ok (replies (all.map Turn.result)), written store reading (lastState store.db all)) := by
  intro all
  obtain ⟨context, hstep⟩ := h
  rw [hstep]
  unfold StoreState.perform
  dsimp only
  rw [commit_map, commit_ok_iff.mpr (batchTx_turns (clean _) context 0 items store.db htolerable)]
  rfl

theorem Batched.step_refused (h : Batched env batch body replies reading items)
    (clean : ∀ now, StaleClean (body now)) (store : StoreState)
    (hrefused : ∃ turn ∈ turns (body (store.clock.writeTime reading)) items store.db,
      tolerable turn.result = false) :
    (∃ error, (step env store ⟨batch items, reading⟩).1 = .error error) ∧
      (step env store ⟨batch items, reading⟩).2.db = store.db := by
  obtain ⟨context, hstep⟩ := h
  obtain ⟨error, db', hfails⟩ := batchTx_fails (clean _) context 0 items store.db hrefused
  rw [hstep]
  unfold StoreState.perform
  dsimp only
  rw [commit_map]
  unfold commit
  rw [hfails]
  exact ⟨⟨error, rfl⟩, rfl⟩

theorem Batched.of_ok (h : Batched env batch body replies reading items)
    (clean : ∀ now, StaleClean (body now)) (store : StoreState)
    (hok : (step env store ⟨batch items, reading⟩).1 = .ok reply) :
    let all := turns (body (store.clock.writeTime reading)) items store.db
    reply = replies (all.map Turn.result) ∧
      (step env store ⟨batch items, reading⟩).2.db = lastState store.db all := by
  by_cases htolerable : ∀ turn ∈ turns (body (store.clock.writeTime reading)) items store.db,
      tolerable turn.result = true
  · have hstep := h.step_ok clean store htolerable
    rw [hstep] at hok ⊢
    exact ⟨(Except.ok.inj hok).symm, rfl⟩
  · simp only [not_forall, Bool.not_eq_true] at htolerable
    obtain ⟨turn, hturn, hrefused⟩ := htolerable
    obtain ⟨⟨error, herror⟩, _⟩ := h.step_refused clean store ⟨turn, hturn, hrefused⟩
    rw [herror] at hok
    cases hok

end Batches

section Instances

variable {reading : Reading}

theorem single_complete : Single env .complete
    (fun now completion => applyCompletionTx env.sha256 completion now) .completed reading :=
  fun _ _ => rfl

theorem execute_of_early (hearly : op.early = none) (hgated : op.gated = true) :
    execute env store ⟨op, reading⟩ =
      store.perform reading fun now => op.program env store.options now := by
  unfold execute
  rw [hearly]
  exact if_pos hgated

theorem batchError_none {size : Nat} (hsome : 0 < size) (hsize : size ≤ bound) :
    batchError name size bound = none := by
  unfold batchError
  exact if_neg (by omega)

theorem batched_completeBatch {completions : List Completion} (hsome : 0 < completions.length)
    (hsize : completions.length ≤ maxCompletionBatchSize) :
    Batched env .completeBatch (fun now completion => applyCompletionTx env.sha256 completion now)
      .completions reading completions :=
  ⟨_, fun _ => execute_of_early (batchError_none hsome hsize) rfl⟩

end Instances

end RailYard.Refinement
