import RailYard.Domain.Transitions
import RailYard.Properties.Reaper
import RailYard.Properties.Reserve

/-! The declared state machine and the one the store runs. They agree except
where a lease is given back to the queue and where a job that waits for its
retry is ended by an operator. -/
namespace RailYard.Properties
open Library.Transaction Domain Store
open Refinement Lifecycle

/-- The changes of a job that the table does not have: the reaper or an operator
puts a leased job back to `PENDING`, and an operator fails a `RETRYING` job. -/
def Undeclared (op : Op) (id : String) (before after : JobState) : Prop :=
  match op with
  | .reapExpired _ => before.leased = true ∧ after = .pending
  | .cancelJob command => command.jobID = id ∧ before = .retrying ∧ after = .failed
  | .forceJobAction command action => command.jobID = id ∧
      (action = .release ∧ before.leased = true ∧ after = .pending ∨
        action = .fail ∧ before = .retrying ∧ after = .failed)
  | _ => False

theorem declared_of_changes {id : String} {before after : JobState}
    (hcause : causeOf op = some cause) (hchanges : cause.Changes id before after)
    (changed : after ≠ before) :
    after ∈ (transitions before).getD [] ↔ ¬Undeclared op id before after := by
  cases op <;> cases hcause
  case acquire | markRunning | markRunningBatch | promoteDue =>
    obtain ⟨rfl, rfl⟩ := hchanges
    simp [transitions, Undeclared]
  case complete | completeBatch =>
    cases before <;> cases after <;>
      simp_all [transitions, Undeclared, Cause.Changes, JobState.leased, JobState.terminal]
  case reapExpired =>
    cases before <;> cases after <;>
      simp_all [transitions, Undeclared, Cause.Changes, JobState.leased, JobState.terminal]
  case cancelJob command =>
    cases before <;> cases after <;>
      simp_all [transitions, Undeclared, Cause.Changes, JobState.terminal]
  case forceJobAction command action =>
    cases action with
    | other name unknown =>
      have hname : name ≠ "release" := by
        rintro rfl
        exact unknown (List.mem_cons_self ..)
      cases before <;> cases after <;>
        simp_all [Cause.Changes, JobState.terminal, ForceAction.state, ForceAction.text,
          JobState.unsuccessful]
    | _ =>
      cases before <;> cases after <;>
        simp_all [transitions, Undeclared, Cause.Changes, JobState.leased, JobState.terminal,
          ForceAction.state, JobState.unsuccessful]

structure Changed (env : Env) (store : StoreState) (call : Call) (id : String)
    (before after : JobRow) : Prop where
  found : store.db.jobs.get? id = some before
  left : (step env store call).2.db.jobs.get? id = some after
  state : after.state ≠ before.state

def ChangesDeclared (env : Env) (store : StoreState) (call : Call) : Prop :=
  ∀ id before after, Changed env store call id before after →
    validateTransition before.state after.state = .ok ()

/-- The call takes no edge that the table lacks: the reaper finds no expired lease with
attempts left, and an operator releases no leased job and neither cancels nor fails one
that waits for its retry. -/
def KeepsTable (store : StoreState) : Activity → Prop
  | .call ⟨.reapExpired limit, reading⟩ =>
    ∀ entry ∈ (expiredLeases store.db (store.clock.writeTime reading)).take limit.toNat,
      entry.2.exhausted = true
  | .call ⟨.cancelJob command, _⟩ =>
    ∀ row, store.db.jobs.get? command.jobID = some row → row.state ≠ .retrying
  | .call ⟨.forceJobAction command action, _⟩ =>
    ∀ row, store.db.jobs.get? command.jobID = some row →
      (action = .release → row.state.leased = false) ∧ (action = .fail → row.state ≠ .retrying)
  | _ => True

def OnlyDies (yard yard' : Yard) : Prop :=
  ∀ id row, yard'.jobs.get? id = some row → yard.jobs.get? id = some row ∨ row.state = .deadLetter

theorem onlyDies_of_recovery {id : String} (h : Recovery policy now id expired yard yard')
    (exhausted : expired.exhausted = true) : OnlyDies yard yard' := by
  intro other row hrow
  cases h with
  | requeued _ _ left =>
    rw [exhausted] at left
    cases left
  | buried move reaped _ dead cascade _ =>
    rcases jobs_of_cascade cascade hrow with hmiddle | ⟨_, hstate⟩
    · rcases Move.get?_apply_cases reaped.valid hmiddle with ⟨_, rfl⟩ | ⟨_, hold⟩
      · exact .inr dead
      · exact .inl hold
    · exact .inr hstate

theorem onlyDies_reapExpired (coherent : Coherent (yardOf db))
    (spent : ∀ entry ∈ (expiredLeases db now).take limit.toNat, entry.2.exhausted = true)
    (h : reapExpired now limit db = .ok reaped db') : OnlyDies (yardOf db) (yardOf db') := by
  replace h := query_bind h
  obtain ⟨_, _, hloop⟩ := bind_pure_ok h
  have hreached : Relation.ReflTransGen
      (fun yard yard' => Step anyPolicy yard yard' ∧ OnlyDies yard yard')
      (yardOf db) (yardOf db') := by
    refine forM_reaches ?_ hloop
    rintro ⟨jobID, expired⟩ hentry before after hreached hbody
    have hmicros := micros_of_steps (hreached.lift id fun _ _ hstep => hstep.1)
    have hexpired := mem_expiredLeases.mp (List.mem_of_mem_take hentry)
    have htracked : Tracked before (jobID, expired.job) :=
      Tracked.evolves ⟨expired.job, hexpired.job, .refl expired.job⟩ (evolves_of_micros hmicros)
    have hrecovery : Recovery anyPolicy now jobID expired (yardOf before) (yardOf after) :=
      reapAttempt_ok (anyPolicy_allows .reap) (coherent.micros hmicros).fences htracked
        (fun hfalse => hfalse.elim) hbody
    exact .single ⟨hrecovery.step, onlyDies_of_recovery hrecovery (spent _ hentry)⟩
  clear hloop
  generalize yardOf db' = last at hreached
  induction hreached with
  | refl => exact fun _ _ => .inl
  | tail _ hlast ih =>
    intro id row hrow
    rcases hlast.2 id row hrow with hbefore | hdead
    · exact ih id row hbefore
    · exact .inr hdead

theorem declared_of_keepsTable (sound : Sound (yardOf store.db))
    (h : KeepsTable store (.call call)) : ChangesDeclared env store call := by
  intro id before after changed
  rcases step_changes sound changed.found changed.left with hsame | ⟨cause, hcause, hchanges⟩
  · exact (changed.state hsame).elim
  rw [validateTransition_ok, declared_of_changes hcause hchanges changed.state]
  obtain ⟨op, reading⟩ := call
  cases op with
  | reapExpired limit =>
    rintro ⟨_, hpending⟩
    have hunchanged : ¬(step env store ⟨.reapExpired limit, reading⟩).2.db = store.db := by
      intro hsame
      have hleft := changed.left
      rw [hsame, changed.found] at hleft
      exact changed.state (congrArg JobRow.state (Option.some.inj hleft).symm)
    by_cases hlimit : limit < 1
    · refine hunchanged ?_
      change (execute env store ⟨.reapExpired limit, reading⟩).2.db = _
      unfold execute
      rw [show (Op.reapExpired limit).early = some (.ok (.reaped [])) from if_pos hlimit]
    · have hstep : step env store ⟨.reapExpired limit, reading⟩ = _ :=
        step_map env store reading (fun now => reapExpired now limit) .reaped
          (fun _ => Op.noConfusion) (if_neg hlimit) rfl fun _ => rfl
      rcases commit_cases (reapExpired (store.clock.writeTime reading) limit) store.db with
        ⟨reaped, db', hreap, hcommit⟩ | ⟨error, hcommit⟩
      · have hleft := changed.left
        rw [hstep, hcommit] at hleft
        rcases onlyDies_reapExpired sound.toCoherent h hreap id after hleft with hsame | hdead
        · have hrow := changed.found.symm.trans hsame
          exact changed.state (congrArg JobRow.state (Option.some.inj hrow).symm)
        · rw [hdead] at hpending
          cases hpending
      · exact hunchanged (by rw [hstep, hcommit])
  | cancelJob command =>
    rintro ⟨rfl, hretrying, _⟩
    exact h before changed.found hretrying
  | forceJobAction command action =>
    rintro ⟨rfl, ⟨haction, hleased, _⟩ | ⟨haction, hretrying, _⟩⟩
    · rw [(h before changed.found).1 haction] at hleased
      cases hleased
    · exact (h before changed.found).2 haction hretrying
  | _ => exact fun hfalse => hfalse

theorem along_at {first : List Activity}
    (h : Along env condition store (first ++ activity :: later)) :
    condition (run env store first) activity := by
  induction first generalizing store with
  | nil => exact h.1
  | cons other first ih => exact ih h.2

/-- In every run whose calls take no edge that the table lacks, every change of a job's
state that a call commits is an edge of the table. -/
theorem changes_declared (env : Env) (options : Options) (activities : List Activity)
    (h : Along env KeepsTable (freshStore options) activities) (first later : List Activity)
    (call : Call) (split : activities = first ++ .call call :: later) :
    ChangesDeclared env (run env (freshStore options) first) call := by
  subst split
  exact declared_of_keepsTable (sound_run env options first) (along_at h)

/-- A job that has no attempt left is reaped. -/
theorem changes_declared_spent :
    let activities := [singleAttemptJob 1, acquireTwo, .call ⟨.reapExpired 1, ⟨20, 0⟩⟩]
    Along lengthEnv KeepsTable (freshStore defaultOptions) activities ∧
      ChangesDeclared lengthEnv (run lengthEnv (freshStore defaultOptions)
        [singleAttemptJob 1, acquireTwo]) ⟨.reapExpired 1, ⟨20, 0⟩⟩ := by
  intro activities
  have halong : Along lengthEnv KeepsTable (freshStore defaultOptions) activities := by
    refine ⟨trivial, trivial, ?_, trivial⟩
    change ∀ entry ∈ _, _ = true
    decide +kernel
  exact ⟨halong, changes_declared lengthEnv defaultOptions activities halong
    [singleAttemptJob 1, acquireTwo] [] _ rfl⟩

/-- The reaper puts a job of which the lease has expired back to `PENDING`. -/
theorem reaped_undeclared : ¬ChangesDeclared lengthEnv
      (run lengthEnv (freshStore defaultOptions) [plainJob 1 [], acquireTwo])
      ⟨.reapExpired 1, ⟨20, 0⟩⟩ := by
  generalize hstore : run lengthEnv (freshStore defaultOptions) [plainJob 1 [], acquireTwo] = store
  have hbefore : (store.db.jobs.get? (newID (entropyOf 1))).map JobRow.state = some .scheduled := by
    subst hstore
    decide +kernel
  have hafter : ((step lengthEnv store ⟨.reapExpired 1, ⟨20, 0⟩⟩).2.db.jobs.get?
      (newID (entropyOf 1))).map JobRow.state = some .pending := by
    subst hstore
    decide +kernel
  intro hdeclared
  obtain ⟨before, hfound, hscheduled⟩ := Option.map_eq_some_iff.mp hbefore
  obtain ⟨after, hfound', hpending⟩ := Option.map_eq_some_iff.mp hafter
  have hedge := validateTransition_ok.mp
    (hdeclared _ before after ⟨hfound, hfound', by rw [hscheduled, hpending]; decide⟩)
  rw [hscheduled, hpending] at hedge
  revert hedge
  decide

end RailYard.Properties
