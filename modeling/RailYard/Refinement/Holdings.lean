import RailYard.Lifecycle.Holdings
import RailYard.Refinement.Polling

/-! What a call does to the slots that workers hold, and to the capacities they
are registered with. -/
namespace RailYard.Refinement
open Library Library.Transaction Domain Store
open Lifecycle Relation

theorem held_le_of_steps (quiet : ¬policy.granting) (sound : Sound yard)
    (h : ReflTransGen (Step policy) yard yard') (workerID : String) :
    yard'.held workerID ≤ yard.held workerID := by
  refine (preserved (motive := fun after => Coherent after ∧
    after.held workerID ≤ yard.held workerID) ?_ (micros_of_steps h)
    ⟨sound.toCoherent, Int.le_refl _⟩).2
  intro before after ⟨hcoherent, hle⟩ hmicro
  exact ⟨hcoherent.micro _ _ hmicro,
    (hmicro.held_le quiet hcoherent.fences hcoherent.accounts workerID).trans hle⟩

def leasedTo (workerID : String) (leases : List Lease) : Int :=
  ((leases.filter fun lease => lease.workerID = workerID).map Lease.slotCost).sum

theorem leasedTo_cons (workerID : String) (lease : Lease) (leases : List Lease) :
    leasedTo workerID (lease :: leases) =
      (if lease.workerID = workerID then lease.slotCost else 0) + leasedTo workerID leases := by
  unfold leasedTo
  by_cases h : lease.workerID = workerID <;> simp [h]

theorem Grants.held_le (h : Grants policy sha256 leases yard yard') (coherent : Coherent yard)
    (costs : ∀ lease ∈ leases, ∃ row, yard.jobs.get? lease.jobID = some row ∧
      row.slotCost = lease.slotCost) (workerID : String) :
    yard'.held workerID ≤ yard.held workerID + leasedTo workerID leases := by
  induction h with
  | nil => exact Int.le_of_eq (Int.add_zero _).symm
  | @cons lease leases yard between after head tail ih =>
    rw [List.forall_mem_cons] at costs
    have hevolves := evolves_of_micros head.step.micros
    obtain ⟨move, attempt, hvalid, rfl, hid, _, hnumber, _, _, hattempt, hworker, _⟩ :=
      head.exists_move
    obtain ⟨row, hrow, hcost⟩ := costs.1
    obtain rfl : move.row = row := by
      have hfound := hvalid.found
      rw [hid, hrow, Option.some.injEq] at hfound
      exact hfound.symm
    rw [← hid, ← hnumber] at hattempt
    have hfirst := Move.held_le_add coherent.accounts hvalid hattempt workerID
    have hrest := ih (coherent.micro _ _ (.move move hvalid)) (by
      intro other hother
      obtain ⟨found, hfound, hsame⟩ := costs.2 other hother
      obtain ⟨later, hlater, hidentity⟩ := hevolves.jobs _ _ hfound
      exact ⟨later, hlater, hidentity.identity.slotCost.trans hsame⟩)
    rw [hworker, hcost] at hfirst
    rw [leasedTo_cons]
    omega

theorem leasedTo_eq (h : Leased request now db leases granted) (workerID : String) :
    leasedTo workerID leases =
      if request.workerID = workerID then jobsCost granted else 0 := by
  have hcosts : leases.map Lease.slotCost = granted.map fun entry => entry.2.slotCost := by
    have hpairs := congrArg (List.map Prod.snd) h.leases_eq
    rwa [List.map_map, List.map_map] at hpairs
  unfold leasedTo
  by_cases hworker : request.workerID = workerID
  · rw [if_pos hworker, List.filter_eq_self.mpr fun lease hlease =>
      decide_eq_true ((h.worker lease hlease).trans hworker), hcosts]
    rfl
  · rw [if_neg hworker, List.filter_eq_nil_iff.mpr fun lease hlease => by
      rw [decide_eq_true_eq, h.worker lease hlease]
      exact hworker]
    rfl

theorem acquire_held (sound : Sound (yardOf db)) (hearly : request.early = none)
    (h : acquire sha256 request tokens now db = .ok leases db') (workerID : String) :
    (yardOf db').held workerID ≤ (yardOf db).held workerID +
      if request.workerID = workerID then request.availableSlots else 0 := by
  obtain ⟨granted, hleased, _⟩ := acquire_leased h
  obtain ⟨_, hslots, _, hreserve⟩ := early_eq_none hearly
  have hheld := (acquire_any h).held_le sound.toCoherent (by
    intro lease hlease
    have hmem : (lease.jobID, lease.slotCost) ∈
        granted.map fun entry => (entry.1, entry.2.slotCost) := by
      rw [← hleased.leases_eq]
      exact List.mem_map_of_mem hlease
    obtain ⟨entry, hentry, heq⟩ := List.mem_map.mp hmem
    obtain ⟨hid, hcost⟩ := Prod.mk.inj heq
    have hrow := (db.jobs.mem_rows_iff entry.1 entry.2).mp
      (mem_rankedJobs (hleased.ranked entry hentry)).1
    exact ⟨entry.2, hid ▸ hrow, hcost⟩) workerID
  rw [leasedTo_eq hleased] at hheld
  have hfits : jobsCost granted ≤ request.availableSlots := by
    cases granted with
    | nil =>
      rw [jobsCost_nil]
      omega
    | cons entry rest =>
      refine (hleased.fits (List.cons_ne_nil _ _)).trans ?_
      unfold offeredSlots
      split <;> omega
  split_ifs at hheld ⊢ <;> omega

section Capacities

def capacities (db : Database) (workerID : String) : Option Int :=
  (db.workers.get? workerID).map WorkerRow.capacitySlots

theorem aloof_capacities : Aloof capacities := by
  refine { toApart := ?_, attempts := fun _ _ => rfl }
  constructor <;> intros <;> rfl

theorem capacities_modify (db : Database) (key : String)
    (h : ∀ row, (change row).capacitySlots = row.capacitySlots) :
    capacities { db with workers := db.workers.modify key change } = capacities db := by
  funext workerID
  unfold capacities
  rw [Table.get?_modify]
  by_cases hkey : workerID = key
  · rw [if_pos hkey, hkey, Option.map_map]
    exact Option.map_congr fun row _ => h row
  · rw [if_neg hkey]

theorem registerWorker_capacities {slots : Int}
    (h : registerWorker workerID slots now db = .ok () db') :
    capacities db' = Function.update (capacities db) workerID (some slots) ∧
      ∀ capacity, capacities db workerID = some capacity → capacity = slots := by
  obtain ⟨found, between, hselect, h⟩ := bind_ok h
  obtain ⟨hfound, rfl⟩ := select_ok hselect
  cases found with
  | none =>
    obtain ⟨habsent, rfl⟩ := insert_ok h
    change db.workers.get? workerID = none at habsent
    refine ⟨funext fun other => ?_, fun capacity hcapacity => ?_⟩
    · change ((db.workers.insert workerID _).get? other).map _ = _
      by_cases hother : other = workerID
      · rw [hother, Table.get?_insert_self _ _ habsent, Function.update_self]
        rfl
      · rw [Table.get?_insert_ne _ _ hother, Function.update_of_ne hother]
        rfl
    · unfold capacities at hcapacity
      rw [habsent] at hcapacity
      cases hcapacity
  | some worker =>
    obtain ⟨hsame, h⟩ := require_bind h
    obtain ⟨_, last, hupdate, h⟩ := bind_ok h
    obtain ⟨_, rfl⟩ := pure_ok h
    have hkept : capacities last = capacities db := by
      rcases update_ok hupdate with ⟨_, _, _, _, rfl⟩ | ⟨_, _, rfl⟩
      · exact capacities_modify db workerID fun _ => rfl
      · rfl
    have hslots : capacities db workerID = some slots := by
      change db.workers.get? workerID = some worker at hfound
      unfold capacities
      rw [hfound, ← hsame]
      rfl
    rw [hkept]
    refine ⟨(Function.update_eq_self_iff.mpr hslots.symm).symm, fun capacity hcapacity => ?_⟩
    rw [hslots, Option.some.injEq] at hcapacity
    exact hcapacity.symm

theorem step_capacities (h : ∀ workerID slots, call.op ≠ .registerWorker workerID slots) :
    capacities (step env store call).2.db = capacities store.db := by
  by_cases harea : area call.op = .workers
  · rcases step_cases env store call with hstep | ⟨now, reply, _, _, hrun⟩
    · exact congrArg capacities hstep
    · obtain ⟨op, reading⟩ := call
      cases op with
      | registerWorker workerID slots => exact (h workerID slots rfl).elim
      | heartbeatWorker workerID =>
        obtain ⟨_, _, hheartbeat, hpure⟩ := bind_ok hrun
        obtain ⟨_, hdb⟩ := pure_ok hpure
        rw [← hdb]
        obtain ⟨_, _, hupdate, hrequire⟩ := bind_ok hheartbeat
        obtain ⟨_, rfl⟩ := require_ok hrequire
        rcases update_ok hupdate with ⟨_, _, _, _, rfl⟩ | ⟨_, _, rfl⟩
        · exact capacities_modify _ workerID fun _ => rfl
        · rfl
      | _ => cases harea
  · refine step_preserves aloof_capacities ?_
    cases hop : area call.op with
    | workers => exact (harea hop).elim
    | _ =>
      dsimp only [Outside, Deaf]
      repeat' constructor
      all_goals intros; rfl

theorem step_registerWorker {slots : Int} (hid : workerID ≠ "") (hslots : 1 ≤ slots) :
    step env store ⟨.registerWorker workerID slots, reading⟩ =
      let result :=
        commit (registerWorker workerID slots (store.clock.writeTime reading)) store.db
      (result.1.map fun _ => .done,
        { store with db := result.2, clock := store.clock.tick reading }) := by
  refine step_map env store reading (registerWorker workerID slots) (fun _ => .done)
    (fun _ => Op.noConfusion) ?_ rfl fun _ => rfl
  change (if _ then _ else if _ then _ else _) = _
  rw [if_neg hid, if_neg (by omega)]

theorem runCalls_capacities (h : ∀ call ∈ calls, triggered call.op = true) :
    capacities (runCalls env store calls).db = capacities store.db := by
  induction calls generalizing store with
  | nil => rfl
  | cons call rest ih =>
    rw [List.forall_mem_cons] at h
    refine (ih h.2).trans (step_capacities fun workerID slots hop => ?_)
    rw [hop] at h
    cases h.1

end Capacities

end RailYard.Refinement
