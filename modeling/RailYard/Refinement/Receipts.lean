import RailYard.Lifecycle.Receipts
import RailYard.Refinement.Batches
import RailYard.Refinement.Bystanders

/-! What completions are answered with. The first completion of an attempt
leaves its receipt on the attempt; from then on the attempt alone decides what
a completion under its lease gets. -/
namespace RailYard.Refinement
open Library Library.Transaction Domain Store
open Lifecycle Relation

variable {sha256 : Hash}

structure Owns (sha256 : Hash) (completion : Completion) (attempt : AttemptRow) : Prop where
  workerID : attempt.workerID = completion.workerID
  generation : attempt.leaseGeneration = completion.generation
  token : attempt.tokenHash = tokenHash sha256 completion.token

structure Receipts (sha256 : Hash) (completion : Completion) (receipt : CompletionReceipt)
    (attempt : AttemptRow) : Prop where
  owns : Owns sha256 completion attempt
  digest : attempt.completionRequestDigest = some (completionDigest sha256 completion)
  state : attempt.receiptState = some receipt.state
  stateVersion : attempt.receiptStateVersion = some receipt.stateVersion
  committedAt : attempt.receiptCommittedAt = some receipt.committedAt
  jobID : receipt.jobID = completion.jobID

def Settled (sha256 : Hash) (db : Database) (completion : Completion)
    (receipt : CompletionReceipt) : Prop :=
  ∃ attempt, db.attempts.get? (completion.jobID, completion.attemptNo) = some attempt ∧
    Receipts sha256 completion receipt attempt

theorem Receipts.same {attempt : AttemptRow} (h : Receipts sha256 completion receipt attempt)
    (holder : SameHolder attempt attempt') (same : SameReceipt attempt attempt') :
    Receipts sha256 completion receipt attempt' where
  owns := ⟨holder.workerID.trans h.owns.workerID, holder.leaseGeneration.trans h.owns.generation,
    holder.tokenHash.trans h.owns.token⟩
  digest := same.digest.trans h.digest
  state := same.state.trans h.state
  stateVersion := same.stateVersion.trans h.stateVersion
  committedAt := same.committedAt.trans h.committedAt
  jobID := h.jobID

theorem Settled.kept (h : Settled sha256 db completion receipt)
    (keeps : KeepsReceipts (yardOf db) (yardOf db')) : Settled sha256 db' completion receipt := by
  obtain ⟨attempt, hattempt, hreceipts⟩ := h
  obtain ⟨attempt', hattempt', hholder, hsame⟩ :=
    keeps _ attempt hattempt (by rw [hreceipts.digest]; rfl)
  exact ⟨attempt', hattempt', hreceipts.same hholder hsame⟩

theorem applyCompletionTx_found (h : applyCompletionTx sha256 completion now db = .ok receipt db') :
    ∃ attempt job, db.attempts.get? (completion.jobID, completion.attemptNo) = some attempt ∧
      db.jobs.get? completion.jobID = some job ∧ Owns sha256 completion attempt ∧
      (db' = db ∧ duplicateReceipt sha256 completion attempt = .ok receipt ∨
        attempt.completionRequestDigest = none ∧ ∃ outcome : JobState × Time,
          commitCompletion sha256 completion job outcome.1 outcome.2 now db = .ok receipt db') := by
  obtain ⟨found, _, hselect, h⟩ := bind_ok h
  obtain ⟨hfound, rfl⟩ := select_ok hselect
  obtain ⟨row, _, hselect, h⟩ := bind_ok h
  obtain ⟨hrow, rfl⟩ := select_ok hselect
  cases found with
  | none => exact (throw_ok h).elim
  | some attempt =>
    cases row with
    | none => exact (throw_ok h).elim
    | some job =>
      obtain ⟨⟨hworker, hgeneration, htoken⟩, h⟩ := require_bind h
      refine ⟨attempt, job, hfound, hrow, ⟨hworker, hgeneration, htoken⟩, ?_⟩
      split at h
      · obtain ⟨hduplicate, rfl⟩ := lift_ok h
        exact .inl ⟨rfl, hduplicate⟩
      · rename_i hdigest
        obtain ⟨_, h⟩ := require_bind h
        obtain ⟨outcome, _, h⟩ := lift_bind h
        exact .inr ⟨by simpa using hdigest, outcome, h⟩

theorem duplicateReceipt_ok {attempt : AttemptRow} (owns : Owns sha256 completion attempt)
    (h : duplicateReceipt sha256 completion attempt = .ok receipt) :
    Receipts sha256 completion receipt attempt := by
  unfold duplicateReceipt at h
  split at h
  · rename_i hdigest
    split at h
    · rename_i state stateVersion committedAt hstate hversion hcommitted
      cases h
      exact ⟨owns, hdigest, hstate, hversion, hcommitted, rfl⟩
    · cases h
  · cases h

theorem apart_attempts : Apart Database.attempts := by
  constructor <;> intros <;> rfl

theorem deaf_attempts : Deaf Database.attempts := fun _ _ => rfl

theorem commitCompletion_receipt {attempt : AttemptRow} (hfits : timeToDB now = now)
    (hattempt : db.attempts.get? (completion.jobID, completion.attemptNo) = some attempt)
    (owns : Owns sha256 completion attempt) (hdigest : attempt.completionRequestDigest = none)
    (h : commitCompletion sha256 completion job nextState availableAt now db = .ok receipt db') :
    Settled sha256 db' completion receipt := by
  obtain ⟨_, db1, hupdate, h⟩ := bind_ok h
  have hsame1 : db1.attempts = db.attempts := Preserves.ok (.update apart_attempts.jobs _ _ _) hupdate
  obtain ⟨_, h⟩ := require_bind h
  obtain ⟨_, db2, hrelease, h⟩ := bind_ok h
  have hsame2 : db2.attempts = db1.attempts :=
    Preserves.ok ((apart_attempts.moves _).releaseSlots _ _ _) hrelease
  obtain ⟨_, db3, hledger, h⟩ := bind_ok h
  have hsame3 : db3.attempts = db2.attempts :=
    Preserves.ok (.onlyIf ((apart_attempts.moves _).insertCanonicalCompletion _ _ _ _ _ _)) hledger
  obtain ⟨_, db4, hdead, h⟩ := bind_ok h
  have hsame4 : db4.attempts = db3.attempts :=
    Preserves.ok (.onlyIf ((apart_attempts.moves _).insertDeadLetter _ _)) hdead
  obtain ⟨_, db5, hedit, h⟩ := bind_ok h
  obtain ⟨_, db6, hevent, h⟩ := bind_ok h
  have hsame6 : db6.attempts = db5.attempts := Preserves.ok
    ((apart_attempts.moves _).addEvent (by split <;> rfl) (by split <;> rfl) _ _ _ _) hevent
  obtain ⟨_, db7, hactivate, h⟩ := bind_ok h
  have hsame7 : db7.attempts = db6.attempts :=
    Preserves.ok (.onlyIf ((apart_attempts.moves _).activateChildren _)) hactivate
  obtain ⟨_, db8, hfail, h⟩ := bind_ok h
  have hsame8 : db8.attempts = db7.attempts :=
    Preserves.ok (.onlyIf ((apart_attempts.moves _).failDescendants _)) hfail
  obtain ⟨rfl, rfl⟩ := pure_ok h
  rw [← hsame1, ← hsame2, ← hsame3, ← hsame4] at hattempt
  rw [update_run _ hattempt (by rw [hdigest]; rfl)] at hedit
  cases hedit
  refine ⟨completedEdit sha256 completion nextState (job.stateVersion + 1) now attempt, ?_,
    ⟨owns.workerID, owns.generation, owns.token⟩, rfl, rfl, rfl, congrArg some hfits, rfl⟩
  rw [hsame8, hsame7, hsame6]
  exact (Table.get?_modify_self _ _ _).trans (congrArg _ hattempt)

theorem applyCompletionTx_settled (hfits : timeToDB now = now)
    (h : applyCompletionTx sha256 completion now db = .ok receipt db') :
    Settled sha256 db' completion receipt := by
  obtain ⟨attempt, job, hattempt, _, howns, ⟨rfl, hduplicate⟩ | ⟨hdigest, _, hcommit⟩⟩ :=
    applyCompletionTx_found h
  · exact ⟨attempt, hattempt, duplicateReceipt_ok howns hduplicate⟩
  · exact commitCompletion_receipt hfits hattempt howns hdigest hcommit

structure SameFence (completion other : Completion) : Prop where
  lease : other.toLeaseRef = completion.toLeaseRef
  workerID : other.workerID = completion.workerID

theorem Receipts.duplicate {attempt : AttemptRow} (collisionFree : Function.Injective sha256)
    (h : Receipts sha256 completion receipt attempt) (other : Completion) :
    duplicateReceipt sha256 other attempt =
      if other = completion then .ok { receipt with duplicate := true } else .error .staleLease := by
  have hdigests : attempt.completionRequestDigest = some (completionDigest sha256 other) ↔
      other = completion := by
    rw [h.digest, Option.some.injEq, eq_comm]
    exact (completionDigest_injective collisionFree).eq_iff
  unfold duplicateReceipt
  by_cases hsame : other = completion
  · rw [if_pos (hdigests.mpr hsame), if_pos hsame, h.state, h.stateVersion, h.committedAt, hsame,
      ← h.jobID]
    rfl
  · rw [if_neg (mt hdigests.mp hsame), if_neg hsame]

theorem Settled.answer (collisionFree : Function.Injective sha256) (fences : Fences (yardOf db))
    (h : Settled sha256 db completion receipt) (fence : SameFence completion other) (now : Time) :
    commit (applyCompletionTx sha256 other now) db =
      (if other = completion then .ok { receipt with duplicate := true } else .error .staleLease,
        db) := by
  obtain ⟨attempt, hattempt, hreceipts⟩ := h
  obtain ⟨job, hjob, _⟩ := fences.attempt _ _ attempt hattempt
  have hjobID : other.jobID = completion.jobID := congrArg LeaseRef.jobID fence.lease
  have hnumber : other.attemptNo = completion.attemptNo := congrArg LeaseRef.attemptNo fence.lease
  have hgeneration : other.generation = completion.generation :=
    congrArg LeaseRef.generation fence.lease
  have htoken : other.token = completion.token := congrArg LeaseRef.token fence.lease
  have howns : attempt.workerID = other.workerID ∧ attempt.leaseGeneration = other.generation ∧
      attempt.tokenHash = tokenHash sha256 other.token := by
    rw [fence.workerID, hgeneration, htoken]
    exact ⟨hreceipts.owns.workerID, hreceipts.owns.generation, hreceipts.owns.token⟩
  have hrun : applyCompletionTx sha256 other now db =
      lift (duplicateReceipt sha256 other attempt) db := by
    unfold applyCompletionTx
    rw [bind_run (select_run ..), bind_run (select_run ..), hjobID, hnumber,
      show (attempts.read db).get? _ = some attempt from hattempt,
      show (jobs.read db).get? _ = some job from hjob]
    dsimp only
    rw [bind_run (require_run _ _ howns), if_pos (by rw [hreceipts.digest]; rfl)]
  unfold commit
  rw [hrun, hreceipts.duplicate collisionFree other]
  by_cases hsame : other = completion
  · rw [if_pos hsame]
    rfl
  · rw [if_neg hsame]
    rfl

structure Archive (yard : Yard) : Prop where
  sound : Sound yard
  receipted : Receipted yard

theorem Archive.steps (h : Archive yard) (hsteps : ReflTransGen (Step policy) yard yard') :
    Archive yard' ∧ KeepsReceipts yard yard' := by
  have hkeeps := KeepsReceipts.micros h.receipted h.sound.fences (micros_of_steps hsteps)
  exact ⟨⟨h.sound.steps hsteps, hkeeps.1⟩, hkeeps.2⟩

theorem commit_applyCompletionTx (sha256 : Hash) (completion : Completion) (now : Time)
    (sound : Sound (yardOf db)) :
    ReflTransGen (Step anyPolicy) (yardOf db)
      (yardOf (commit (applyCompletionTx sha256 completion now) db).2) := by
  rcases commit_cases (applyCompletionTx sha256 completion now) db with
    ⟨_, db', hrun, hcommit⟩ | ⟨_, hcommit⟩
  · rw [hcommit]
    exact applyCompletionTx_ok sound.graph (anyPolicy_allows _) (fun _ _ _ _ => trivial) (fun hfalse => hfalse.elim) hrun
  · rw [hcommit]

/-- A turn for the lease of an earlier completion changes nothing and gets that
completion's receipt, or none if it brings another body. -/
def Repeats (completion : Completion) (receipt : CompletionReceipt)
    (turn : Turn Completion CompletionReceipt) : Prop :=
  SameFence completion turn.item → turn.after = turn.before ∧
    turn.result = if turn.item = completion then .ok { receipt with duplicate := true }
      else .error .staleLease

section Turns

variable (collisionFree : Function.Injective sha256)
include collisionFree

theorem Settled.turns (archive : Archive (yardOf db)) (h : Settled sha256 db completion receipt)
    (items : List Completion) :
    ∀ turn ∈ turns (fun item => applyCompletionTx sha256 item now) items db,
      Repeats completion receipt turn := by
  induction items generalizing db with
  | nil => exact fun _ hturn => (by cases hturn)
  | cons item rest ih =>
    intro turn hturn
    rcases List.mem_cons.mp hturn with rfl | hturn
    · intro hfence
      have hanswer := h.answer collisionFree archive.sound.fences hfence now
      dsimp only at hanswer ⊢
      rw [hanswer]
      exact ⟨rfl, rfl⟩
    · obtain ⟨harchive, hkeeps⟩ :=
        archive.steps (commit_applyCompletionTx sha256 item now archive.sound)
      exact ih harchive (h.kept hkeeps) turn hturn

omit collisionFree in
theorem lastState_steps (archive : Archive (yardOf db)) (items : List Completion) :
    ReflTransGen (Step anyPolicy) (yardOf db) (yardOf (lastState db
      (Refinement.turns (fun item => applyCompletionTx sha256 item now) items db))) := by
  induction items generalizing db with
  | nil => exact .refl
  | cons item rest ih =>
    have hfirst := commit_applyCompletionTx sha256 item now archive.sound
    exact hfirst.trans (ih (archive.steps hfirst).1)

omit collisionFree in
theorem settled_lastState (hfits : timeToDB now = now) (archive : Archive (yardOf db))
    (items : List Completion) :
    ∀ turn ∈ Refinement.turns (fun item => applyCompletionTx sha256 item now) items db,
      ∀ receipt, turn.result = .ok receipt → Settled sha256 (lastState db
        (Refinement.turns (fun item => applyCompletionTx sha256 item now) items db))
        turn.item receipt := by
  induction items generalizing db with
  | nil => exact fun _ hturn => (by cases hturn)
  | cons item rest ih =>
    intro turn hturn receipt hok
    have harchive := (archive.steps (commit_applyCompletionTx sha256 item now archive.sound)).1
    rcases List.mem_cons.mp hturn with rfl | hturn
    · have hsettled : Settled sha256 (commit (applyCompletionTx sha256 item now) db).2 item
          receipt := by
        obtain ⟨db', hrun⟩ := commit_ok hok
        rw [commit_ok_iff.mpr hrun]
        exact applyCompletionTx_settled hfits hrun
      exact hsettled.kept (harchive.steps (lastState_steps harchive rest)).2
    · exact ih harchive turn hturn receipt hok

theorem turns_repeat (hfits : timeToDB now = now) (archive : Archive (yardOf db))
    (items : List Completion) :
    (Refinement.turns (fun item => applyCompletionTx sha256 item now) items db).Pairwise
      fun earlier later => ∀ receipt, earlier.result = .ok receipt →
        Repeats earlier.item receipt later := by
  induction items generalizing db with
  | nil => exact .nil
  | cons item rest ih =>
    have harchive := (archive.steps (commit_applyCompletionTx sha256 item now archive.sound)).1
    refine .cons (fun turn hturn receipt hok => ?_) (ih harchive)
    obtain ⟨db', hrun⟩ := commit_ok hok
    have hcommit := commit_ok_iff.mpr hrun
    rw [hcommit] at hturn harchive
    exact (applyCompletionTx_settled hfits hrun).turns collisionFree harchive rest turn hturn

end Turns

/-- The completions that an activity answers, one by one. A batch that fails
answers none. -/
def completionTurns (env : Env) (store : StoreState) :
    Activity → List (Turn Completion CompletionReceipt)
  | .call ⟨.complete completion, reading⟩ =>
    turns (fun item => applyCompletionTx env.sha256 item (store.clock.writeTime reading))
      [completion] store.db
  | .call ⟨.completeBatch completions, reading⟩ =>
    match (step env store ⟨.completeBatch completions, reading⟩).1 with
    | .ok _ => turns (fun item =>
        applyCompletionTx env.sha256 item (store.clock.writeTime reading)) completions store.db
    | .error _ => []
  | _ => []

def completionHistory (env : Env) :
    StoreState → List Activity → List (Turn Completion CompletionReceipt)
  | _, [] => []
  | store, activity :: rest =>
    completionTurns env store activity ++ completionHistory env (advance env store activity) rest

theorem batched_of_ok {completions : List Completion}
    (h : (step env store ⟨.completeBatch completions, reading⟩).1 = .ok reply) :
    Batched env .completeBatch (fun now completion => applyCompletionTx env.sha256 completion now)
      .completions reading completions := by
  by_cases hsize : completions.length = 0 ∨ completions.length > maxCompletionBatchSize
  · have hearly : (Op.completeBatch completions).early = some (.error _) := if_pos hsize
    change (execute env store ⟨.completeBatch completions, reading⟩).1 = _ at h
    unfold execute at h
    rw [hearly] at h
    cases h
  · exact batched_completeBatch (by omega) (by omega)

/-- The turns of an activity are turns at its write time, and they end in the
tables that the activity leaves. -/
theorem completionTurns_cases (env : Env) (store : StoreState) (activity : Activity) :
    completionTurns env store activity = [] ∨ ∃ reading items,
      let all := turns (fun item =>
        applyCompletionTx env.sha256 item (store.clock.writeTime reading)) items store.db
      completionTurns env store activity = all ∧
        (advance env store activity).db = lastState store.db all := by
  cases activity with
  | fireDueCron => exact .inl rfl
  | deliverRedis => exact .inl rfl
  | call call =>
    obtain ⟨op, reading⟩ := call
    cases op
    case complete completion =>
      refine .inr ⟨reading, [completion], rfl, ?_⟩
      change (step env store ⟨.complete completion, reading⟩).2.db = _
      rw [single_complete.step_eq]
      rfl
    case completeBatch completions =>
      simp only [completionTurns]
      cases hreply : (step env store ⟨.completeBatch completions, reading⟩).1 with
      | error error => exact .inl rfl
      | ok reply =>
        have hbatch := (batched_of_ok hreply).of_ok
          (fun now => clean_applyCompletionTx env.sha256 now) store hreply
        exact .inr ⟨reading, completions, rfl, hbatch.2⟩
    all_goals exact .inl rfl

theorem turns_items {α β : Type} (body : α → Tx β) (items : List α) (db : Database) :
    (turns body items db).map Turn.item = items := by
  induction items generalizing db with
  | nil => rfl
  | cons item rest ih => exact congrArg (item :: ·) (ih _)

structure Reported (env : Env) (store : StoreState) (reading : Reading) : Prop where
  single : ∀ completion, ∃ turn,
    completionTurns env store (.call ⟨.complete completion, reading⟩) = [turn] ∧
      turn.item = completion ∧ turn.before = store.db ∧
      (step env store ⟨.complete completion, reading⟩).1 = turn.result.map .completed ∧
      (step env store ⟨.complete completion, reading⟩).2.db = turn.after
  batch : ∀ completions reply,
    (step env store ⟨.completeBatch completions, reading⟩).1 = .ok reply →
    let all := completionTurns env store (.call ⟨.completeBatch completions, reading⟩)
    all.map Turn.item = completions ∧ reply = .completions (all.map Turn.result) ∧
      (step env store ⟨.completeBatch completions, reading⟩).2.db = lastState store.db all

theorem reported (env : Env) (store : StoreState) (reading : Reading) :
    Reported env store reading where
  single := by
    intro completion
    rw [single_complete.step_eq]
    exact ⟨_, rfl, rfl, rfl, rfl, rfl⟩
  batch := by
    intro completions reply hreply
    have hbatch := (batched_of_ok hreply).of_ok
      (fun now => clean_applyCompletionTx env.sha256 now) store hreply
    simp only [completionTurns, hreply]
    exact ⟨turns_items .., hbatch⟩

theorem Archive.advance (h : Archive (yardOf store.db)) (env : Env) (activity : Activity) :
    Archive (yardOf (advance env store activity).db) ∧
      KeepsReceipts (yardOf store.db) (yardOf (Store.advance env store activity).db) :=
  h.steps (advance_ok trivial h.sound (keepsTo_any store activity))

section History

variable {env : Env} (collisionFree : Function.Injective env.sha256)
include collisionFree

theorem Settled.history (archive : Archive (yardOf store.db))
    (h : Settled env.sha256 store.db completion receipt) (activities : List Activity) :
    ∀ turn ∈ completionHistory env store activities, Repeats completion receipt turn := by
  induction activities generalizing store with
  | nil => exact fun _ hturn => (by cases hturn)
  | cons activity rest ih =>
    intro turn hturn
    rcases List.mem_append.mp hturn with hturn | hturn
    · rcases completionTurns_cases env store activity with hnone | ⟨reading, items, hall, _⟩
      · rw [hnone] at hturn
        cases hturn
      · rw [hall] at hturn
        exact h.turns collisionFree archive items turn hturn
    · obtain ⟨harchive, hkeeps⟩ := archive.advance env activity
      exact ih harchive (h.kept hkeeps) turn hturn

theorem history_repeats (archive : Archive (yardOf store.db)) (activities : List Activity) :
    (completionHistory env store activities).Pairwise fun earlier later =>
      ∀ receipt, earlier.result = .ok receipt → Repeats earlier.item receipt later := by
  induction activities generalizing store with
  | nil => exact .nil
  | cons activity rest ih =>
    have harchive := (archive.advance env activity).1
    unfold completionHistory
    rcases completionTurns_cases env store activity with hnone | ⟨reading, items, hall, hlast⟩
    · rw [hnone]
      exact ih harchive
    · have hfits : timeToDB (store.clock.writeTime reading) = store.clock.writeTime reading :=
        store.clock.writeTime_fits reading
      rw [hall, List.pairwise_append]
      refine ⟨turns_repeat collisionFree hfits archive items, ih harchive, ?_⟩
      intro earlier hearlier later hlater receipt hok
      have hsettled := settled_lastState hfits archive items earlier hearlier receipt hok
      rw [← hlast] at hsettled
      exact hsettled.history collisionFree harchive rest later hlater

end History

theorem archive_fresh (options : Options) : Archive (yardOf (freshStore options).db) :=
  ⟨sound_fresh options, fun _ _ h => (by cases h)⟩

end RailYard.Refinement
