import RailYard.Properties.Leases

/-! The reaper reads the expired leases once and then recovers them one by one.
It gets through its list exactly if it buries no job whose lease stands further
down the same list. -/
namespace RailYard.Properties
open Library Library.Transaction Domain Store
open Lifecycle Refinement

/-- `ORDER BY expires_at, job_id`. -/
def DueBefore (a b : String × ExpiredAttempt) : Prop :=
  a.2.attempt.expiresAt < b.2.attempt.expiresAt ∨
    a.2.attempt.expiresAt = b.2.attempt.expiresAt ∧ a.1 < b.1

/-- All leases that are current and expired at `now`, in order. -/
structure DueInOrder (db : Database) (now : Time) (leases : List (String × ExpiredAttempt)) :
    Prop where
  mem : ∀ id expired, (id, expired) ∈ leases ↔ Expired db now id expired
  sorted : leases.Pairwise DueBefore

theorem dueInOrder_expiredLeases (db : Database) (now : Time) :
    DueInOrder db now (expiredLeases db now) where
  mem := fun _ _ => mem_expiredLeases
  sorted := by
    have hids : (expiredLeases db now).Pairwise fun a b => a.1 ≠ b.1 :=
      List.pairwise_map.mp (nodup_expiredLeases db now)
    refine (hids.and (pairwise_orderByTime _ _)).imp ?_
    rintro a b ⟨hne, hless | ⟨heq, hid⟩⟩
    · exact .inl hless
    · exact .inr ⟨heq, lt_of_le_of_ne (not_lt.mp hid) hne⟩

theorem DueInOrder.eq (h : DueInOrder db now leases) (h' : DueInOrder db now leases') :
    leases = leases' := by
  have hasymm : ∀ a b : String × ExpiredAttempt, DueBefore a b → ¬DueBefore b a := by
    rintro a b (hab | ⟨hab, hid⟩) (hba | ⟨hba, hid'⟩)
    · omega
    · omega
    · omega
    · exact lt_asymm hid hid'
  have hnodup : ∀ {list : List (String × ExpiredAttempt)}, list.Pairwise DueBefore → list.Nodup :=
    fun hsorted => hsorted.imp (by
      rintro a _ hab rfl
      exact hasymm a a hab hab)
  have hperm : leases.Perm leases' := by
    rw [List.perm_ext_iff_of_nodup (hnodup h.sorted) (hnodup h'.sorted)]
    exact fun entry => (h.mem entry.1 entry.2).trans (h'.mem entry.1 entry.2).symm
  exact hperm.eq_of_pairwise (fun a b _ _ hab hba => (hasymm a b hab hba).elim) h.sorted h'.sorted

/-- A call succeeds, returns the first `limit` due leases and closes them. -/
def Reaps (db : Database) (now : Time) (limit : Int) : Prop :=
  ∃ leases db', DueInOrder db now leases ∧
    commit (reapExpired now limit) db =
      (.ok ((leases.take limit.toNat).map (reapedLease now)), db') ∧
    ∀ entry ∈ leases.take limit.toNat, ∀ attempt,
      db'.attempts.get? (entry.1, entry.2.attemptNo) = some attempt →
      attempt.state.isOpen = false

def reapRepeatedly (now : Time) (limit : Int) : Nat → Database → Database
  | 0, db => db
  | calls + 1, db => reapRepeatedly now limit calls (commit (reapExpired now limit) db).2

def Drains (db : Database) (now : Time) (limit : Int) : Prop :=
  expiredLeases (reapRepeatedly now limit (expiredLeases db now).length db) now = []

/-- No lease of a job without attempts left stands before the lease of a job
below it. -/
def Unrelated (db : Database) (leases : List (String × ExpiredAttempt)) : Prop :=
  leases.Pairwise fun first second => first.2.exhausted = true →
    second.1 ∉ Closure.descendants (dependencyEdges db) first.1

theorem unrelated_iff : Unrelated db leases ↔ Detached (yardOf db) leases := by
  unfold Unrelated Detached
  simp only [mem_descendants_iff]

theorem reapExpired_run : reapExpired now limit db = .ok reaped db' ↔
      ((expiredLeases db now).take limit.toNat).forM (reapAttempt now) db = .ok () db' ∧
        reaped = ((expiredLeases db now).take limit.toNat).map (reapedLease now) := by
  constructor
  · intro h
    replace h := query_bind h
    obtain ⟨_, rfl, hloop⟩ := bind_pure_ok h
    exact ⟨hloop, rfl⟩
  · rintro ⟨hloop, rfl⟩
    exact (bind_run rfl).trans (bind_run hloop)

theorem drained_of_detached (coherent : Coherent (yardOf db))
    (sublist : (leases ++ tail).Sublist (expiredLeases db now))
    (detached : Detached (yardOf db) (leases ++ tail)) :
    ∃ db', leases.forM (reapAttempt now) db = .ok () db' ∧ Drained db db' now leases tail :=
  reap_loop coherent (fun _ hentry => mem_expiredLeases.mp (sublist.subset hentry))
    ((nodup_expiredLeases db now).sublist (sublist.map Prod.fst)) detached

theorem reaps_iff (coherent : Coherent (yardOf db)) :
    Reaps db now limit ↔ Unrelated db ((expiredLeases db now).take limit.toNat) := by
  rw [unrelated_iff]
  constructor
  · rintro ⟨leases, db', _, hcommit, _⟩
    obtain ⟨hloop, _⟩ := reapExpired_run.mp (commit_ok_iff.mp hcommit)
    refine (detached_of_reaped coherent (fun entry hentry => ?_) hloop).1
    have hexpired := mem_expiredLeases.mp (List.mem_of_mem_take hentry)
    exact ⟨entry.2.job, hexpired.job, .refl entry.2.job⟩
  · intro hdetached
    rw [← List.append_nil ((expiredLeases db now).take limit.toNat)] at hdetached
    obtain ⟨db', hloop, hdrained⟩ := drained_of_detached coherent (by
      rw [List.append_nil]
      exact List.take_sublist ..) hdetached
    exact ⟨expiredLeases db now, db', dueInOrder_expiredLeases db now,
      commit_ok_iff.mpr (reapExpired_run.mpr ⟨hloop, rfl⟩), hdrained.closed⟩

theorem expiredLeases_after (limit : Int) (coherent : Coherent (yardOf db))
    (detached : Detached (yardOf db) (expiredLeases db now)) :
    let db' := (commit (reapExpired now limit) db).2
    Coherent (yardOf db') ∧ (yardOf db').edges = (yardOf db).edges ∧
      expiredLeases db' now = (expiredLeases db now).drop limit.toNat := by
  intro after
  have hwhole := List.take_append_drop limit.toNat (expiredLeases db now)
  rw [← hwhole] at detached
  obtain ⟨db', hloop, hdrained⟩ :=
    drained_of_detached coherent (by rw [hwhole]) detached
  have hafter : after = db' :=
    congrArg Prod.snd (commit_ok_iff.mpr (reapExpired_run.mpr ⟨hloop, rfl⟩))
  rw [hafter]
  refine ⟨hdrained.coherent, hdrained.edges, ?_⟩
  refine (dueInOrder_expiredLeases db' now).eq ⟨fun id expired => ⟨?_, fun hexpired => ?_⟩, ?_⟩
  · exact fun hmem => hdrained.left (id, expired) hmem
  · obtain ⟨hbefore, hnot⟩ := hdrained.due id expired hexpired
    have hmem := mem_expiredLeases.mpr hbefore
    rw [← hwhole, List.mem_append] at hmem
    exact hmem.resolve_left fun htake => hnot (List.mem_map.mpr ⟨_, htake, rfl⟩)
  · exact (dueInOrder_expiredLeases db now).sorted.sublist (List.drop_sublist ..)

theorem drains_of_detached (hlimit : 1 ≤ limit) (coherent : Coherent (yardOf db))
    (detached : Detached (yardOf db) (expiredLeases db now))
    (hcalls : (expiredLeases db now).length ≤ calls) :
    expiredLeases (reapRepeatedly now limit calls db) now = [] := by
  induction calls generalizing db with
  | zero => exact List.length_eq_zero_iff.mp (Nat.le_zero.mp hcalls)
  | succ calls ih =>
    obtain ⟨hcoherent, hedges, hleft⟩ := expiredLeases_after limit coherent detached
    refine ih hcoherent ?_ ?_
    · unfold Detached
      rw [hleft, descendant_of_edges hedges]
      exact detached.sublist (List.drop_sublist ..)
    · rw [hleft, List.length_drop]
      omega

/-- For every reachable state and time, a call works exactly if no job without
attempts left stands on its list before a job below it; and calls of every
size work and drain the expired leases exactly if no such pair is due. -/
theorem reaper_progress (env : Env) (options : Options) (activities : List Activity) (now : Time) :
    let db := (run env (freshStore options) activities).db
    (∀ limit, 1 ≤ limit →
      (Reaps db now limit ↔ Unrelated db ((expiredLeases db now).take limit.toNat))) ∧
    ((∀ limit, 1 ≤ limit → Reaps db now limit ∧ Drains db now limit) ↔
      Unrelated db (expiredLeases db now)) := by
  intro db
  have coherent := (sound_run env options activities).toCoherent
  refine ⟨fun limit _ => reaps_iff coherent, fun h => ?_, fun hunrelated limit hlimit => ?_⟩
  · -- One call that is large enough sees the whole list.
    have hreaps := (h ((expiredLeases db now).length + 1 : Nat) (by omega)).1
    rwa [reaps_iff coherent, Int.toNat_natCast, List.take_of_length_le (Nat.le_succ _)] at hreaps
  · refine ⟨(reaps_iff coherent).mpr (hunrelated.sublist (List.take_sublist ..)), ?_⟩
    exact drains_of_detached hlimit coherent (unrelated_iff.mp hunrelated) (le_refl _)

def singleAttemptJob (byte : UInt8) : Activity :=
  .call ⟨.submitJob {
    job := { payload := { type := .noop }, retry := ⟨1, true⟩ }
    actor := "api"
    idempotencyKey := newID (entropyOf byte)
    requestDigest := "digest" } (entropyOf byte), ⟨1, 0⟩⟩

/-- A job and its child, which an operator has released, expire together. The
first is buried with the second, and then the second cannot be reaped. -/
theorem reaper_blocked : ¬Reaps (run plainEnv (freshStore defaultOptions)
    [singleAttemptJob 1, plainJob 2 [newID (entropyOf 1)], forceRelease 2, acquireTwo]).db 20 2 := by
  have hfailed : (commit (reapExpired 20 2) (run plainEnv (freshStore defaultOptions)
      [singleAttemptJob 1, plainJob 2 [newID (entropyOf 1)], forceRelease 2,
        acquireTwo]).db).1.isOk = false := by
    decide +kernel
  rintro ⟨leases, db', _, hcommit, _⟩
  rw [hcommit] at hfailed
  cases hfailed

end RailYard.Properties
