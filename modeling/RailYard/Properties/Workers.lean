import RailYard.Properties.Reserve
import RailYard.Refinement.Holdings

/-! What the server does for its workers: whom an idle one serves in the end, and
how much a worker can come to hold. -/
namespace RailYard.Properties
open Library Library.Transaction Domain Store
open Lifecycle Refinement Relation
open Server (Config HttpError LongPoll PollTurn ServerState beginAcquire handleAcquire poll
  pollLoop recoveryReserve registeredWorker)

section Service

structure AcquireCall where
  limit : Int
  turns : List PollTurn

structure Persistent (config : Config) (calls : Nat → AcquireCall) : Prop where
  polls : ∀ n, (calls n).turns ≠ []
  limits : ∀ n, 1 ≤ (calls n).limit ∧ (calls n).limit ≤ config.maxLeaseBatch

def answer (env : Env) (config : Config) (server : ServerState) (workerID : String) (slots : Int)
    (call : AcquireCall) : Except HttpError (List Lease) × ServerState :=
  handleAcquire env config server workerID slots call.limit call.turns

def afterCalls (env : Env) (config : Config) (workerID : String) (slots : Int)
    (server : ServerState) (calls : Nat → AcquireCall) : Nat → ServerState
  | 0 => server
  | n + 1 => afterCalls env config workerID slots
      (answer env config server workerID slots (calls 0)).2 (fun k => calls (k + 1)) n

def Served (env : Env) (config : Config) (server : ServerState) (workerID : String) (slots : Int)
    (calls : Nat → AcquireCall) (id : String) : Prop :=
  ∃ n leases, (answer env config (afterCalls env config workerID slots server calls n) workerID
    slots (calls n)).1 = .ok leases ∧ ∃ lease ∈ leases, lease.jobID = id

/-- The only job that has not ended is ready whenever the worker asks, and its
tenant has no cap. -/
structure LastJob (id : String) (row : JobRow) (store : StoreState) (calls : Nat → AcquireCall) :
    Prop extends Alone id row store.db where
  pending : row.state = .pending
  ready : 0 < row.readySeq
  available : ∀ n, ∀ turn ∈ (calls n).turns,
    row.availableAt ≤ store.clock.writeTime turn.reading

def Fits (row : JobRow) (slots : Int) : Prop :=
  row.slotCost ≤ slots - recoveryReserve slots ∨
    row.recoveryPending = true ∧ row.slotCost ≤ slots

theorem recoveryReserve_le {slots : Int} (h : 1 ≤ slots) :
    0 ≤ recoveryReserve slots ∧ recoveryReserve slots ≤ slots := by
  unfold recoveryReserve
  split <;> omega

variable {env : Env} {config : Config} {server : ServerState} {waiting : LongPoll}
  {turn : PollTurn} {id : String} {row : JobRow} {workerID : String} {slots : Int}

theorem fits_iff (h : 1 ≤ slots) (hslots : waiting.slots = slots)
    (havailable : waiting.availableSlots = slots) :
    row.slotCost ≤ offeredTo row (waiting.request config) ↔ Fits row slots := by
  have hreserve := recoveryReserve_le h
  have hmin : min slots (recoveryReserve slots) = recoveryReserve slots := min_eq_right hreserve.2
  unfold offeredTo Fits LongPoll.request
  dsimp only
  rw [hslots, havailable, hmin]
  cases row.recoveryPending with
  | false => simp
  | true =>
    simp only [if_true, true_and]
    omega

theorem writeTime_tick (clock : Clock) (earlier later : Reading) :
    clock.writeTime later ≤ (clock.tick earlier).writeTime later := by
  unfold Clock.tick
  change max _ clock.lastTime ≤ max _ (clock.writeTime earlier)
  exact max_le_max_left _ (le_max_right _ _)

structure Standing (env : Env) (id : String) (row : JobRow) (db : Database) : Prop where
  sound : Sound (yardOf db)
  explained : Explained env.sha256 db
  alone : Alone id row db

structure Polled (env : Env) (id : String) (row : JobRow) (turns : Nat) (before after : StoreState) :
    Prop where
  standing : Standing env id row after.db
  clock : ∀ reading, before.clock.writeTime reading ≤ after.clock.writeTime reading
  paid : deficitOf before.db (queueKey (id, row)) + turns ≤ deficitOf after.db (queueKey (id, row))
  short : deficitOf before.db (queueKey (id, row)) = deficitOf after.db (queueKey (id, row)) ∨
    deficitOf after.db (queueKey (id, row)) < row.slotCost

theorem Polled.trans {before after : StoreState} {turns : Nat}
    (h : Polled env id row turns before between) (h' : Polled env id row turns' between after) :
    Polled env id row (turns + turns') before after := by
  have hpaid := h.paid
  have hpaid' := h'.paid
  have hshort := h.short
  have hshort' := h'.short
  refine ⟨h'.standing, fun reading => (h.clock reading).trans (h'.clock reading), ?_, ?_⟩
  · push_cast
    omega
  · omega

theorem poll_cases (env : Env) (server : ServerState) (hearly : (waiting.request config).early = none) (turn : PollTurn) :
    (∃ leases db, acquire env.sha256 (waiting.request config) turn.tokens
        (server.store.clock.writeTime turn.reading) server.store.db = .ok leases db ∧
      poll env config server waiting turn = (.ok leases, { server with
        store := { server.store with db := db, clock := server.store.clock.tick turn.reading } })) ∨
    ∃ error, poll env config server waiting turn = (.error (.store error), { server with
      store := { server.store with clock := server.store.clock.tick turn.reading } }) := by
  unfold poll
  rw [step_acquire hearly]
  rcases commit_cases (acquire env.sha256 (waiting.request config) turn.tokens
      (server.store.clock.writeTime turn.reading)) server.store.db with
    ⟨leases, db, hrun, hcommit⟩ | ⟨error, hcommit⟩
  · rw [hcommit]
    exact .inl ⟨leases, db, hrun, rfl⟩
  · rw [hcommit]
    exact .inr ⟨error, rfl⟩

theorem poll_eq (hearly : (waiting.request config).early = none)
    (h : acquire env.sha256 (waiting.request config) turn.tokens
      (server.store.clock.writeTime turn.reading) server.store.db = .ok leases db) :
    poll env config server waiting turn = (.ok leases, { server with
      store := { server.store with db := db, clock := server.store.clock.tick turn.reading } }) := by
  unfold poll
  rw [step_acquire hearly, commit_ok_iff.mpr h]
  rfl

variable (collisionFree : Function.Injective env.sha256) (pending : row.state = .pending)
  (ready : 0 < row.readySeq) (hearly : (waiting.request config).early = none)
  (fits : row.slotCost ≤ offeredTo row (waiting.request config))
include collisionFree pending ready hearly fits

theorem poll_alone (h : Standing env id row server.store.db)
    (available : row.availableAt ≤ server.store.clock.writeTime turn.reading) :
    (∃ leases polled, poll env config server waiting turn = (.ok leases, polled) ∧
      ∃ lease ∈ leases, lease.jobID = id) ∨
    ∃ store, poll env config server waiting turn = (.ok [], { server with store := store }) ∧
      Polled env id row 1 server.store store := by
  obtain ⟨_, hslots, hlimit, _⟩ := early_eq_none hearly
  have hnow : timeToDB (server.store.clock.writeTime turn.reading) =
      server.store.clock.writeTime turn.reading := server.store.clock.writeTime_fits turn.reading
  obtain ⟨leases, db', hrun, houtcome⟩ : ∃ leases db', acquire env.sha256 (waiting.request config)
      turn.tokens (server.store.clock.writeTime turn.reading) server.store.db = .ok leases db' ∧ _ :=
    acquire_alone collisionFree h.sound h.explained.toJournaled h.alone pending
      ready (available.trans hnow.ge) (by omega) (by omega) fits
  rcases houtcome with hlease | ⟨rfl, hyard, hmore, hless⟩
  · exact .inl ⟨leases, _, poll_eq hearly hrun, hlease⟩
  · right
    refine ⟨_, poll_eq hearly hrun, ⟨?_, h.explained.acquire h.sound hrun, h.alone.same hyard⟩,
      fun later => writeTime_tick _ _ _, ?_, .inr hless⟩
    · rw [hyard]
      exact h.sound
    · push_cast
      omega

theorem pollLoop_alone {turns : List PollTurn} (h : Standing env id row server.store.db)
    (available : ∀ turn ∈ turns, row.availableAt ≤ server.store.clock.writeTime turn.reading) :
    (∃ leases polled, pollLoop env config waiting server turns = (.ok leases, polled) ∧
      ∃ lease ∈ leases, lease.jobID = id) ∨
    ∃ store, pollLoop env config waiting server turns = (.ok [], { server with store := store }) ∧
      Polled env id row turns.length server.store store := by
  induction turns generalizing server with
  | nil => exact .inr ⟨server.store, rfl, h, fun _ => le_refl _, by simp, .inl rfl⟩
  | cons turn rest ih =>
    rw [List.forall_mem_cons] at available
    rw [pollLoop]
    rcases poll_alone collisionFree pending ready hearly fits h available.1 with
      ⟨leases, polled, hpoll, lease, hlease, hid⟩ | ⟨store, hpoll, hpolled⟩
    · left
      obtain ⟨first, others, rfl⟩ := List.exists_cons_of_ne_nil (List.ne_nil_of_mem hlease)
      rw [hpoll]
      exact ⟨_, _, rfl, lease, hlease, hid⟩
    · rw [hpoll]
      have hrest := @ih ⟨store, server.workers, server.waiting⟩ hpolled.standing fun turn hturn =>
        (available.2 turn hturn).trans (hpolled.clock _)
      refine hrest.imp_right ?_
      rintro ⟨final, hloop, hfinal⟩
      refine ⟨final, hloop, ?_⟩
      rw [List.length_cons, Nat.add_comm]
      exact hpolled.trans hfinal

end Service

section Idle

variable {env : Env} {config : Config} {server : ServerState} {calls : Nat → AcquireCall}
  {id : String} {row : JobRow} {workerID : String} {slots : Int}

theorem beginAcquire_all (registered : registeredWorker server workerID = .ok slots)
    (positive : 1 ≤ slots) (hlimit : 1 ≤ limit ∧ limit ≤ config.maxLeaseBatch) :
    beginAcquire config server workerID slots limit = .ok ⟨workerID, slots, slots, limit⟩ := by
  unfold beginAcquire
  rw [registered]
  dsimp only
  rw [if_neg (by omega), if_neg (by omega)]

theorem beginAcquire_ok (h : beginAcquire config server workerID availableSlots limit = .ok waiting)
    :
    server.workers workerID = some waiting.slots ∧ waiting.workerID = workerID ∧
      (waiting.request config).early = none := by
  unfold beginAcquire at h
  cases hregistered : registeredWorker server workerID with
  | error error =>
    rw [hregistered] at h
    cases h
  | ok slots =>
    rw [hregistered] at h
    dsimp only at h
    split_ifs at h with havailable hlimit
    cases h
    have hreserve : 0 ≤ recoveryReserve slots ∧ recoveryReserve slots ≤ slots :=
      recoveryReserve_le (by omega)
    have hlease := config.leaseTTLPositive
    refine ⟨?_, rfl, ?_⟩
    · unfold registeredWorker at hregistered
      split at hregistered
      · cases hregistered
      · cases hworker : server.workers workerID with
        | none =>
          rw [hworker] at hregistered
          cases hregistered
        | some found =>
          rw [hworker] at hregistered
          cases hregistered
          rfl
    · unfold AcquireRequest.early LongPoll.request
      dsimp only
      rw [if_neg (by rintro rfl; cases hregistered), if_neg (by omega), if_neg (by omega),
        if_neg (by omega)]

section Calls

variable (collisionFree : Function.Injective env.sha256)
  (registered : registeredWorker server workerID = .ok slots) (positive : 1 ≤ slots)
  (persistent : Persistent config calls) (sound : Sound (yardOf server.store.db))
  (explained : Explained env.sha256 server.store.db) (last : LastJob id row server.store calls)
  (fits : Fits row slots)
include collisionFree registered positive persistent sound explained last fits

theorem answer_last :
    (∃ leases, (answer env config server workerID slots (calls 0)).1 = .ok leases ∧
      ∃ lease ∈ leases, lease.jobID = id) ∨
    ∃ store turns, 0 < turns ∧
      (answer env config server workerID slots (calls 0)).2 = { server with store := store } ∧
      Polled env id row turns server.store store := by
  have hlimit := persistent.limits 0
  have hfits : row.slotCost ≤ offeredTo row
      (LongPoll.request config ⟨workerID, slots, slots, (calls 0).limit⟩) :=
    (fits_iff positive rfl rfl).mpr fits
  have hbegin : beginAcquire config server workerID slots (calls 0).limit = _ :=
    beginAcquire_all registered positive hlimit
  unfold answer handleAcquire
  rw [hbegin]
  dsimp only
  rcases pollLoop_alone collisionFree last.pending last.ready
    (beginAcquire_ok hbegin).2.2 hfits ⟨sound, explained, last.toAlone⟩
    (last.available 0) with ⟨leases, polled, hloop, hlease⟩ | ⟨store, hloop, hpolled⟩
  · rw [hloop]
    exact .inl ⟨leases, rfl, hlease⟩
  · rw [hloop]
    exact .inr ⟨store, _, List.length_pos_iff.mpr (persistent.polls 0), rfl, hpolled⟩

theorem served_last {lack : Nat}
    (hlack : row.slotCost ≤ deficitOf server.store.db (queueKey (id, row)) + lack) :
    Served env config server workerID slots calls id := by
  induction lack using Nat.strong_induction_on generalizing server calls with
  | _ lack ih =>
    rcases answer_last collisionFree registered positive persistent sound explained last fits with
      ⟨leases, hanswer, hlease⟩ | ⟨store, turns, hturns, hanswer, hpolled⟩
    · exact ⟨0, leases, hanswer, hlease⟩
    · have hpaid := hpolled.paid
      have hshort := hpolled.short
      obtain ⟨n, leases, hserved, hlease⟩ := @ih (lack - 1) (by omega)
        ⟨store, server.workers, server.waiting⟩ (fun k => calls (k + 1)) registered
        ⟨fun n => persistent.polls (n + 1), fun n => persistent.limits (n + 1)⟩
        hpolled.standing.sound hpolled.standing.explained
        { toAlone := hpolled.standing.alone
          pending := last.pending
          ready := last.ready
          available := fun n turn hturn =>
            (last.available (n + 1) turn hturn).trans (hpolled.clock _) }
        (by dsimp only; omega)
      refine ⟨n + 1, leases, ?_, hlease⟩
      rw [afterCalls, hanswer]
      exact hserved

end Calls

/-- An idle worker that keeps asking runs the last job that fits beside its
reserve, or that recovers and fits at all. -/
theorem idle_worker_serves (env : Env) (config : Config) (options : Options)
    (activities : List Activity) (workers : String → Option Int) {workerID : String} {slots : Int}
    {id : String} {row : JobRow} {calls : Nat → AcquireCall}
    (collisionFree : Function.Injective env.sha256) (positive : 1 ≤ slots)
    (registered : registeredWorker ⟨run env (freshStore options) activities, workers, []⟩ workerID =
      .ok slots) (persistent : Persistent config calls)
    (last : LastJob id row (run env (freshStore options) activities) calls)
    (fits : Fits row slots) :
    Served env config ⟨run env (freshStore options) activities, workers, []⟩ workerID slots calls
      id :=
  served_last collisionFree registered positive persistent
    (sound_run env options activities) (explained_run env options activities) last fits
    (Int.le_add_of_sub_left_le (Int.self_le_toNat _))

section Oversized

theorem pollLoop_oversized {turns : List PollTurn}
    (hearly : (LongPoll.request config ⟨workerID, slots, slots, limit⟩).early = none)
    (positive : 1 ≤ slots) (oversized : ¬Fits row slots) (h : Alone id row server.store.db) :
    ∃ reply store, pollLoop env config ⟨workerID, slots, slots, limit⟩ server turns =
        (reply, { server with store := store }) ∧ Alone id row store.db ∧
      ∀ leases, reply = .ok leases → leases = [] := by
  induction turns generalizing server with
  | nil => exact ⟨_, _, rfl, h, fun _ heq => (Except.ok.inj heq).symm⟩
  | cons turn rest ih =>
    rw [pollLoop]
    rcases poll_cases env server hearly turn with
      ⟨leases, db, hrun, hpoll⟩ | ⟨error, hpoll⟩
    · rw [hpoll]
      rcases h.leased hrun with rfl | ⟨_, hfits⟩
      · have hyard := (acquire_any hrun).eq_of_nil
        exact @ih ⟨⟨db, server.store.clock.tick turn.reading, server.store.options⟩,
          server.workers, server.waiting⟩ (h.same hyard)
      · exact (oversized ((fits_iff positive rfl rfl).mp hfits)).elim
    · rw [hpoll]
      exact ⟨_, _, rfl, h, fun _ heq => by cases heq⟩

theorem not_served (registered : registeredWorker server workerID = .ok slots)
    (positive : 1 ≤ slots) (oversized : ¬Fits row slots) (h : Alone id row server.store.db)
    (persistent : Persistent config calls) :
    ¬Served env config server workerID slots calls id := by
  have hanswer : ∀ (server : ServerState) (call : AcquireCall),
      registeredWorker server workerID = .ok slots → Alone id row server.store.db →
      1 ≤ call.limit ∧ call.limit ≤ config.maxLeaseBatch →
      ∃ reply store, answer env config server workerID slots call =
          (reply, { server with store := store }) ∧ Alone id row store.db ∧
        ∀ leases, reply = .ok leases → leases = [] := by
    intro server call hregistered halone hlimit
    have hbegin : beginAcquire config server workerID slots call.limit = _ :=
      beginAcquire_all hregistered positive hlimit
    unfold answer handleAcquire
    rw [hbegin]
    exact pollLoop_oversized (beginAcquire_ok hbegin).2.2 positive oversized halone
  rintro ⟨n, leases, hserved, lease, hlease, _⟩
  induction n generalizing server calls with
  | zero =>
    obtain ⟨reply, store, heq, _, hnone⟩ := hanswer server (calls 0) registered h (persistent.limits 0)
    rw [afterCalls, heq] at hserved
    rw [hnone leases hserved] at hlease
    exact List.not_mem_nil hlease
  | succ n ih =>
    obtain ⟨reply, store, heq, halone, _⟩ :=
      hanswer server (calls 0) registered h (persistent.limits 0)
    rw [afterCalls, heq] at hserved
    exact @ih ⟨store, server.workers, server.waiting⟩ (fun k => calls (k + 1)) registered
      halone ⟨fun n => persistent.polls (n + 1), fun n => persistent.limits (n + 1)⟩ hserved

end Oversized

section Example

def plainConfig : Config where
  leaseTTL := 10
  maxWorkerSlots := 2
  maxLeaseBatch := 1
  leaseTTLPositive := by decide

def oneJob (slotCost : Int) : StoreState :=
  run plainEnv (freshStore defaultOptions) [jobIn "a" slotCost 1]

def twoSlotServer (slotCost : Int) : ServerState := ⟨oneJob slotCost, fun _ => some 2, []⟩

def steadyCalls : Nat → AcquireCall :=
  fun _ => ⟨1, [⟨⟨1, 0⟩, fun index => entropyOf index.toUInt8⟩]⟩

theorem steadyCalls_persistent : Persistent plainConfig steadyCalls :=
  ⟨fun _ => List.cons_ne_nil _ _, fun _ => ⟨Int.le_refl 1, Int.le_refl 1⟩⟩

theorem lastJob_of_rows (store : StoreState) (id : String) (p : JobRow → Bool)
    (hone : store.db.jobs.rows.length = 1)
    (hall : (store.db.jobs.rows.all fun entry => entry.1 = id && entry.2.state = .pending &&
      0 < entry.2.readySeq && entry.2.availableAt ≤ store.clock.writeTime ⟨1, 0⟩ &&
      (store.db.tenantLimits.get? entry.2.tenantID).any (fun limits => limits.maxSlots = 0) &&
      p entry.2) = true) :
    ∃ row, LastJob id row store steadyCalls ∧ p row = true := by
  obtain ⟨⟨found, row⟩, hrows⟩ := List.length_eq_one_iff.mp hone
  rw [hrows] at hall
  simp only [List.all_cons, List.all_nil, Bool.and_true, Bool.and_eq_true, decide_eq_true_eq,
    Option.any_eq_true] at hall
  obtain ⟨⟨⟨⟨⟨rfl, hpending⟩, hready⟩, havailable⟩, limits, hlimits, hmax⟩, hp⟩ := hall
  refine ⟨row, ⟨⟨?_, ?_, limits, hlimits, hmax⟩, hpending, hready, ?_⟩, hp⟩
  · rw [← Table.mem_rows_iff, hrows]
    exact List.mem_singleton_self _
  · intro other found' hother hne
    rw [← Table.mem_rows_iff, hrows, List.mem_singleton] at hother
    exact (hne (congrArg Prod.fst hother)).elim
  · intro n turn hturn
    rw [List.mem_singleton.mp hturn]
    exact havailable

/-- Two slots, one of them reserved, and a job of one slot. -/
theorem idle_worker_serves_one :
    Served plainEnv plainConfig (twoSlotServer 1) "worker" 2 steadyCalls (newID (entropyOf 1)) := by
  obtain ⟨row, hlast, hcost⟩ := lastJob_of_rows (oneJob 1) (newID (entropyOf 1))
    (fun row => row.slotCost = 1) (by decide +kernel) (by decide +kernel)
  rw [decide_eq_true_eq] at hcost
  exact idle_worker_serves plainEnv plainConfig defaultOptions [jobIn "a" 1 1] (fun _ => some 2)
    List.reverse_injective (by decide) rfl steadyCalls_persistent hlast
    (.inl (by rw [hcost]; decide))

/-- A job as large as the worker is never granted, as the reserve is not
lifted for it. -/
theorem whole_worker_unserved : ∃ row, LastJob (newID (entropyOf 1)) row (oneJob 2) steadyCalls ∧
    row.slotCost = 2 ∧ registeredWorker (twoSlotServer 2) "worker" = .ok 2 ∧
    ∀ calls, Persistent plainConfig calls →
      ¬Served plainEnv plainConfig (twoSlotServer 2) "worker" 2 calls (newID (entropyOf 1)) := by
  obtain ⟨row, hlast, hrow⟩ := lastJob_of_rows (oneJob 2) (newID (entropyOf 1))
    (fun row => row.slotCost = 2 && !row.recoveryPending) (by decide +kernel) (by decide +kernel)
  simp only [Bool.and_eq_true, decide_eq_true_eq, Bool.not_eq_true'] at hrow
  refine ⟨row, hlast, hrow.1, rfl, fun calls => not_served rfl (by decide) ?_ hlast.toAlone⟩
  rintro (hfits | ⟨hrecovery, _⟩)
  · rw [hrow.1] at hfits
    exact absurd hfits (by decide)
  · rw [hrow.2] at hrecovery
    cases hrecovery

end Example

end Idle

section Capacity

open Server (Event handleRegisterWorker passesThrough start)

variable {env : Env} {config : Config} {server : ServerState} {workerID : String}

/-- No worker holds more than it is registered with, and the server remembers
what the store has registered. -/
structure Within (config : Config) (server : ServerState) : Prop where
  sound : Sound (yardOf server.store.db)
  held : ∀ workerID, (yardOf server.store.db).held workerID ≤
    (capacities server.store.db workerID).getD 0
  workers : ∀ workerID slots, server.workers workerID = some slots →
    capacities server.store.db workerID = some slots
  waiting : ∀ waiting ∈ server.waiting,
    capacities server.store.db waiting.workerID = some waiting.slots ∧
      (waiting.request config).early = none

def OffersFree (server : ServerState) : Event → Prop
  | .poll index _ => ∀ waiting, server.waiting[index]? = some waiting →
      (yardOf server.store.db).held waiting.workerID + waiting.availableSlots ≤ waiting.slots
  | _ => True

def OffersFreeAlong (env : Env) (config : Config) : ServerState → List Event → Prop
  | _, [] => True
  | server, event :: rest =>
    OffersFree server event ∧ OffersFreeAlong env config (Server.advance env config server event) rest

def quietPolicy : Policy := { granting := False }

theorem Within.moved (h : Within config server) (sound : Sound (yardOf store.db))
    (held : ∀ workerID, (yardOf store.db).held workerID ≤ (capacities store.db workerID).getD 0)
    (kept : ∀ workerID capacity, capacities server.store.db workerID = some capacity →
      capacities store.db workerID = some capacity) :
    Within config { server with store := store } where
  sound := sound
  held := held
  workers := fun workerID slots hslots => kept _ _ (h.workers workerID slots hslots)
  waiting := fun waiting hwaiting =>
    ⟨kept _ _ (h.waiting waiting hwaiting).1, (h.waiting waiting hwaiting).2⟩

theorem Within.fewer {waiting : List LongPoll} (h : Within config server)
    (subset : waiting ⊆ server.waiting) : Within config { server with waiting := waiting } where
  sound := h.sound
  held := h.held
  workers := h.workers
  waiting := fun other hother => h.waiting other (subset hother)

theorem Within.quiet (h : Within config server)
    (steps : ReflTransGen (Step quietPolicy) (yardOf server.store.db) (yardOf store.db))
    (same : capacities store.db = capacities server.store.db) :
    Within config { server with store := store } := by
  refine h.moved (h.sound.steps steps) (fun workerID => ?_) fun workerID capacity hcapacity => ?_
  · rw [same]
    exact (held_le_of_steps (fun hfalse => hfalse) h.sound steps workerID).trans (h.held workerID)
  · rw [same]
    exact hcapacity

theorem quiet_call (sound : Sound (yardOf store.db)) (h : grantsLeases call.op = false) :
    ReflTransGen (Step quietPolicy) (yardOf store.db) (yardOf (step env store call).2.db) :=
  call_ok (fun hgrants => by rw [h] at hgrants; cases hgrants) sound
    ⟨fun hfalse => hfalse.elim, fun hfalse => hfalse.elim, fun _ _ _ _ _ => trivial,
      fun _ _ _ _ _ _ _ => trivial⟩

theorem Within.other (h : Within config server) (through : passesThrough activity = true) :
    Within config { server with store := advance env server.store activity } := by
  by_cases hcall : ∃ call, activity = .call call
  · obtain ⟨⟨op, reading⟩, rfl⟩ := hcall
    refine h.quiet (quiet_call h.sound ?_) (step_capacities fun workerID slots hop => ?_)
    · cases op <;> first | rfl | cases through
    · cases hop
      cases through
  · obtain ⟨calls, hcalls, heq⟩ :=
      byCalls_advance env server.store activity fun call hactivity => hcall ⟨call, hactivity⟩
    rw [heq]
    exact h.quiet (runCalls_ok h.sound hcalls) (runCalls_capacities hcalls)

theorem Within.registered {slots : Int} (h : Within config server) (positive : 1 ≤ slots)
    (steps : ReflTransGen (Step quietPolicy) (yardOf server.store.db) (yardOf store.db))
    (hrun : registerWorker workerID slots now server.store.db = .ok () store.db) :
    Within config
      ⟨store, Function.update server.workers workerID (some slots), server.waiting⟩ := by
  obtain ⟨hcapacities, hsame⟩ := registerWorker_capacities hrun
  have hkept : ∀ other capacity, capacities server.store.db other = some capacity →
      capacities store.db other = some capacity := by
    intro other capacity hcapacity
    rw [hcapacities]
    by_cases hother : other = workerID
    · rw [hother, Function.update_self, hsame capacity (hother ▸ hcapacity)]
    · rw [Function.update_of_ne hother]
      exact hcapacity
  have hgrown : ∀ other, (capacities server.store.db other).getD 0 ≤
      (capacities store.db other).getD 0 := by
    intro other
    cases hcapacity : capacities server.store.db other with
    | some capacity => rw [hkept other capacity hcapacity]
    | none =>
      rw [hcapacities, Option.getD_none]
      by_cases hother : other = workerID
      · rw [hother, Function.update_self, Option.getD_some]
        omega
      · rw [Function.update_of_ne hother, hcapacity]
        exact Int.le_refl 0
  have hmoved := h.moved (h.sound.steps steps) (fun other =>
    (held_le_of_steps (fun hfalse => hfalse) h.sound steps other).trans
      ((h.held other).trans (hgrown other))) hkept
  refine { hmoved with workers := fun other capacity hcapacity => ?_ }
  change Function.update server.workers workerID (some slots) other = some capacity at hcapacity
  change capacities store.db other = some capacity
  by_cases hother : other = workerID
  · rw [hcapacities, hother, Function.update_self]
    rw [hother, Function.update_self] at hcapacity
    exact hcapacity
  · rw [Function.update_of_ne hother] at hcapacity
    exact hmoved.workers other capacity hcapacity

theorem Within.register {slots : Int} (h : Within config server) :
    Within config (handleRegisterWorker env config server workerID slots reading).2 := by
  have hquiet : ReflTransGen (Step quietPolicy) (yardOf server.store.db)
      (yardOf (step env server.store ⟨.registerWorker workerID slots, reading⟩).2.db) :=
    quiet_call h.sound rfl
  unfold handleRegisterWorker
  split
  · exact h
  · rename_i hvalid
    split_ifs with hslots
    · exact h
    · have hid : workerID ≠ "" := by
        rintro rfl
        cases hvalid
      rw [step_registerWorker hid (by omega)] at hquiet ⊢
      rcases commit_cases (registerWorker workerID slots (server.store.clock.writeTime reading))
          server.store.db with ⟨_, db, hrun, hcommit⟩ | ⟨error, hcommit⟩
      · rw [hcommit] at hquiet ⊢
        exact h.registered (by omega) hquiet hrun
      · rw [hcommit]
        exact h.quiet .refl rfl

theorem Within.begin {waiting : LongPoll} (h : Within config server)
    (hbegin : beginAcquire config server workerID availableSlots limit = .ok waiting) :
    Within config { server with waiting := server.waiting ++ [waiting] } where
  sound := h.sound
  held := h.held
  workers := h.workers
  waiting := fun other hother => by
    rcases List.mem_append.mp hother with hbefore | hlast
    · exact h.waiting other hbefore
    · obtain ⟨hregistered, hid, hearly⟩ := beginAcquire_ok hbegin
      rw [List.mem_singleton.mp hlast, hid]
      exact ⟨h.workers _ _ hregistered, hearly⟩

theorem Within.poll {waiting : LongPoll} (h : Within config server)
    (hwaiting : waiting ∈ server.waiting)
    (free : (yardOf server.store.db).held waiting.workerID + waiting.availableSlots ≤
      waiting.slots) :
    ∃ reply store, Server.poll env config server waiting turn =
      (reply, { server with store := store }) ∧ Within config { server with store := store } := by
  obtain ⟨hcapacity, hearly⟩ := h.waiting waiting hwaiting
  rcases poll_cases env server hearly turn with ⟨leases, db, hrun, hpoll⟩ | ⟨error, hpoll⟩
  · have hsame : capacities (step env server.store
        ⟨.acquire (waiting.request config) turn.tokens, turn.reading⟩).2.db =
          capacities server.store.db := step_capacities fun _ _ => Op.noConfusion
    rw [step_acquire hearly, commit_ok_iff.mpr hrun] at hsame
    refine ⟨_, _, hpoll, h.moved (h.sound.steps (acquire_any hrun).steps)
      (fun workerID => ?_) fun workerID capacity hfound => ?_⟩
    · have hbefore := h.held workerID
      have hheld : (yardOf db).held workerID ≤ (yardOf server.store.db).held workerID +
          if waiting.workerID = workerID then waiting.availableSlots else 0 :=
        acquire_held h.sound hearly hrun workerID
      change capacities db = _ at hsame
      change (yardOf db).held workerID ≤ (capacities db workerID).getD 0
      rw [hsame]
      by_cases hworker : waiting.workerID = workerID
      · rw [if_pos hworker] at hheld
        rw [← hworker, hcapacity, Option.getD_some]
        rw [← hworker] at hheld
        exact hheld.trans free
      · rw [if_neg hworker, Int.add_zero] at hheld
        exact hheld.trans hbefore
    · exact (congrFun hsame workerID).trans hfound
  · exact ⟨_, _, hpoll, h.quiet .refl rfl⟩

theorem Within.advance (h : Within config server) (free : OffersFree server event) :
    Within config (Server.advance env config server event) := by
  cases event with
  | registerWorker workerID slots reading => exact h.register
  | acquire workerID availableSlots limit =>
    rw [Server.advance]
    split
    · exact h
    · exact h.begin ‹_›
  | poll index turn =>
    rw [Server.advance]
    cases hindex : server.waiting[index]? with
    | none => exact h
    | some waiting =>
      obtain ⟨reply, store, hpoll, hwithin⟩ :=
        h.poll (List.mem_of_getElem? hindex) (free waiting hindex)
      dsimp only
      rw [hpoll]
      split
      · rename_i heq
        cases heq
        exact hwithin
      · rename_i heq
        cases heq
        exact hwithin.fewer List.eraseIdx_subset
  | leave index => exact h.fewer List.eraseIdx_subset
  | other activity through => exact h.other through
  | restart options =>
    refine ⟨h.sound, h.held, fun workerID slots hslots => ?_, fun waiting hwaiting => ?_⟩
    · cases hslots
    · cases hwaiting

theorem Within.run (h : Within config server) (free : OffersFreeAlong env config server events) :
    Within config (Server.run env config server events) := by
  induction events generalizing server with
  | nil => exact h
  | cons event rest ih => exact ih (h.advance free.1) free.2

theorem within_start (options : Options) : Within config (start (freshStore options)) where
  sound := sound_fresh options
  held := fun workerID => Int.le_refl 0
  workers := fun workerID slots hslots => by cases hslots
  waiting := fun waiting hwaiting => by cases hwaiting

/-- As long as no poll offers slots that its worker holds, no worker holds more
than it is registered with. -/
theorem held_within_capacity (env : Env) (config : Config) (options : Options)
    (events : List Event) (free : OffersFreeAlong env config (start (freshStore options)) events)
    (workerID : String) (row : WorkerRow)
    (h : (Server.run env config (start (freshStore options)) events).store.db.workers.get?
      workerID = some row) :
    (yardOf (Server.run env config (start (freshStore options)) events).store.db).held workerID ≤
      row.capacitySlots := by
  have hheld := ((within_start options).run free).held workerID
  unfold capacities at hheld
  rwa [h] at hheld

section Example

/-- A worker of one slot, two jobs that take one each, and two requests of the
worker that wait at the same time. -/
def twoRequests : List Event :=
  [.registerWorker "worker" 1 ⟨1, 0⟩, .other (jobIn "a" 1 1) rfl, .other (jobIn "a" 1 2) rfl,
    .acquire "worker" 1 1, .acquire "worker" 1 1]

def pollFirst (byte : UInt8) : Event :=
  .poll 0 ⟨⟨1, 0⟩, fun index => entropyOf (index.toUInt8 + byte)⟩

/-- The first request is answered. -/
theorem held_within_capacity_one :
    (yardOf (Server.run lengthEnv plainConfig (start (freshStore defaultOptions))
      (twoRequests ++ [pollFirst 1])).store.db).held "worker" ≤ 1 := by
  have hall : ((Server.run lengthEnv plainConfig (start (freshStore defaultOptions))
      twoRequests).waiting.all fun waiting => decide ((yardOf (Server.run lengthEnv plainConfig
        (start (freshStore defaultOptions)) twoRequests).store.db).held waiting.workerID +
          waiting.availableSlots ≤ waiting.slots)) = true := by decide +kernel
  have hworker : ((Server.run lengthEnv plainConfig (start (freshStore defaultOptions))
      (twoRequests ++ [pollFirst 1])).store.db.workers.get? "worker").any
        (fun row => row.capacitySlots = 1) = true := by decide +kernel
  obtain ⟨row, hrow, hslots⟩ := (Option.any_eq_true _ _).mp hworker
  rw [← of_decide_eq_true hslots]
  have free : OffersFreeAlong lengthEnv plainConfig (start (freshStore defaultOptions))
      (twoRequests ++ [pollFirst 1]) := by
    refine ⟨trivial, trivial, trivial, trivial, trivial, fun waiting hwaiting => ?_, trivial⟩
    exact of_decide_eq_true (List.all_eq_true.mp hall waiting (List.mem_of_getElem? hwaiting))
  exact held_within_capacity lengthEnv plainConfig defaultOptions _ free "worker" row hrow

/-- Both requests are answered, and the worker holds two slots. -/
theorem worker_overcommitted :
    ∃ row, (Server.run lengthEnv plainConfig (start (freshStore defaultOptions))
        (twoRequests ++ [pollFirst 1, pollFirst 2])).store.db.workers.get? "worker" = some row ∧
      row.capacitySlots < (yardOf (Server.run lengthEnv plainConfig
        (start (freshStore defaultOptions))
          (twoRequests ++ [pollFirst 1, pollFirst 2])).store.db).held "worker" := by
  have hworker : ((Server.run lengthEnv plainConfig (start (freshStore defaultOptions))
      (twoRequests ++ [pollFirst 1, pollFirst 2])).store.db.workers.get? "worker").any
        (fun row => row.capacitySlots < (yardOf (Server.run lengthEnv plainConfig
          (start (freshStore defaultOptions))
            (twoRequests ++ [pollFirst 1, pollFirst 2])).store.db).held "worker") = true := by
    decide +kernel
  obtain ⟨row, hrow, hslots⟩ := (Option.any_eq_true _ _).mp hworker
  exact ⟨row, hrow, of_decide_eq_true hslots⟩

end Example

end Capacity

end RailYard.Properties
