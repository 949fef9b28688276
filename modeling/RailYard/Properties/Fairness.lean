import RailYard.Refinement.Decisions
import RailYard.Scheduler.Rotation

/-! Fairness between queues over sequences of decisions: what round robin gives
exactly under a uniform load, how much credit a queue can save, and when a
queue that always waits is served. -/
namespace RailYard.Properties
open Library.RoundRobin Store
open Scheduler Refinement

def carriedOf (db : Database) : Carried := ⟨db.schedulerCursor, deficitOf db⟩

/-- The decisions of a store are such a sequence: each starts from the cursor
and the deficits that the one before it left. -/
theorem decisions_threaded (env : Env) (options : Options) (activities : List Activity) :
    let db := (run env (freshStore options) activities).db
    decideAll .zero ((decisionRecords db).map Record.input) =
      .ok ((decisionRecords db).map Record.decision, carriedOf db) := by
  intro db
  have explained : Explained env.sha256 db := explained_run env options activities
  have hcarried : carriedOf db = ⟨latestCursor (records db), latestDeficit (records db)⟩ := by
    unfold carriedOf
    rw [explained.cursor, funext explained.deficits]
  rw [explained.decisionRecords_eq, hcarried]
  exact explained.committed.decideAll

section Uniform

variable {keys : List (String × String)}

theorem uniform_isOk (uniform : Uniform keys input) (carried : Carried) :
    ∃ decision, Scheduler.decide (carried.snapshot input) = .ok decision := by
  refine decide_isOk uniform.slots.le uniform.limit.le uniform.known ?_
  refine List.forall_mem_map.mpr fun queue hqueue candidate hcandidate => ?_
  exact (uniform.costs queue hqueue candidate hcandidate).ge

theorem rotating_decideAll {start : Nat} (nodup : keys.Nodup) (nonempty : keys ≠ [])
    (uniform : ∀ input ∈ inputs, Uniform keys input)
    (h : Rotating (ordered keys) start total counted carried) :
    ∃ decisions last, decideAll carried inputs = .ok (decisions, last) ∧
      ∃ total', Rotating (ordered keys) start total'
        (fun key => counted key + grantsOf key (decisions.flatMap Decision.grants)) last := by
  induction inputs generalizing carried total counted with
  | nil => exact ⟨[], carried, rfl, total, h⟩
  | cons input inputs ih =>
    rw [List.forall_mem_cons] at uniform
    obtain ⟨decision, hdecision⟩ := uniform_isOk uniform.1 carried
    obtain ⟨decisions, last, hrest, total', hlast⟩ :=
      ih uniform.2 (h.decide nodup nonempty uniform.1 hdecision)
    refine ⟨decision :: decisions, last, decideAll_cons hdecision hrest, total', ?_⟩
    simpa [grantsOf, Nat.add_assoc] using hlast

/-- Under a uniform load no queue is ever more than one grant ahead of
another. -/
theorem uniform_load_even (nodup : keys.Nodup) (carried : Carried)
    (settled : ∀ key ∈ keys, carried.deficits key = 0) (inputs : List Snapshot)
    (uniform : ∀ input ∈ inputs, Uniform keys input) :
    ∃ decisions last, decideAll carried inputs = .ok (decisions, last) ∧
      ∀ a ∈ keys, ∀ b ∈ keys, grantsOf a (decisions.flatMap Decision.grants) ≤
        grantsOf b (decisions.flatMap Decision.grants) + 1 := by
  by_cases hempty : keys = []
  · subst hempty
    suffices hok : ∃ result, decideAll carried inputs = .ok result by
      obtain ⟨⟨decisions, last⟩, hresult⟩ := hok
      exact ⟨decisions, last, hresult, fun a ha => (List.not_mem_nil ha).elim⟩
    clear settled
    induction inputs generalizing carried with
    | nil => exact ⟨_, rfl⟩
    | cons input inputs ih =>
      rw [List.forall_mem_cons] at uniform
      obtain ⟨decision, hdecision⟩ := uniform_isOk uniform.1 carried
      obtain ⟨⟨decisions, last⟩, hrest⟩ := ih (carried.after decision) uniform.2
      exact ⟨_, decideAll_cons hdecision hrest⟩
  · have hperm := ordered_perm keys
    have hplaces : 0 < (ordered keys).length := by
      rw [hperm.length_eq]
      exact List.length_pos_iff.mpr hempty
    have hstart : Rotating (ordered keys) (carried.place (ordered keys).length) 0 (fun _ => 0)
        carried :=
      ⟨fun key hkey => settled key (hperm.mem_iff.mp hkey),
        (Nat.mod_eq_of_lt (Nat.mod_lt _ hplaces)).symm, fun _ _ _ => (turns_zero _ _ _).symm⟩
    obtain ⟨decisions, last, hresult, total, hlast⟩ :=
      rotating_decideAll nodup hempty uniform hstart
    refine ⟨decisions, last, hresult, fun a ha b hb => ?_⟩
    obtain ⟨i, hi, rfl⟩ := List.getElem_of_mem (hperm.mem_iff.mpr ha)
    obtain ⟨j, hj, rfl⟩ := List.getElem_of_mem (hperm.mem_iff.mpr hb)
    have hfirst := hlast.counts i _ (List.getElem?_eq_getElem hi)
    have hsecond := hlast.counts j _ (List.getElem?_eq_getElem hj)
    have hle := turns_le (carried.place (ordered keys).length) total hi hj
    rw [← hfirst, ← hsecond] at hle
    simpa using hle

def queueOf (name : String) (costs : List Int) : Queue where
  tenantID := "tenant"
  name := name
  weight := 1
  deficit := 0
  candidates := costs.map fun slotCost => ⟨name, "tenant", name, 0, 1, slotCost, false⟩

def offerOf (workerSlots batchLimit : Int) (queues : List Queue) : Snapshot where
  sequence := 1
  logicalTimeNS := 0
  workerSlots := workerSlots
  batchLimit := batchLimit
  cursor := 0
  queues := queues
  configHash := ""
  algorithm := algorithmVersion

/-- Two queues and a worker with one slot, twice. -/
theorem uniform_load_even_two :
    let inputs := List.replicate 2 (offerOf 1 1 [queueOf "a" [1], queueOf "b" [1]])
    ∃ decisions last, decideAll .zero inputs = .ok (decisions, last) ∧
      ∀ a ∈ [("tenant", "a"), ("tenant", "b")], ∀ b ∈ [("tenant", "a"), ("tenant", "b")],
        grantsOf a (decisions.flatMap Decision.grants) ≤
          grantsOf b (decisions.flatMap Decision.grants) + 1 := by
  intro inputs
  refine uniform_load_even (by decide) .zero (fun _ _ => rfl) inputs fun input hinput => ?_
  obtain rfl := List.eq_of_mem_replicate hinput
  exact ⟨.refl _, by decide, by decide, by decide, by decide, by decide, by decide, .inr rfl⟩

end Uniform

section Credit

def taken (batchLimit : Int) (round : Round) : Int :=
  match visit batchLimit round with
  | .ok next => round.remaining - next.remaining
  | .error _ => 0

/-- Credit beyond the largest cost comes only from visits that passed the queue
over for want of slots; and what a visit of the next decision takes beyond the
quantum is paid from it. -/
theorem deficits_bounded {largest : Int} (positive : 1 ≤ largest) {inputs : List Snapshot}
    {decisions : List Decision} {last : Carried}
    (regular : ∀ input ∈ inputs, Regular largest input)
    (h : decideAll .zero inputs = .ok (decisions, last)) :
    (∀ key, last.deficits key ≤ largest + passes key .zero inputs) ∧
      ∀ input decision, Regular largest input →
        Scheduler.decide (last.snapshot input) = .ok decision →
        ∀ round ∈ (last.snapshot input).visits, ∀ queue,
          round.queues[round.cursor]? = some queue → taken input.batchLimit round ≤
            largest + (passes queue.key .zero inputs + (last.snapshot input).passes queue.key) +
              1 := by
  have hzero : ∀ key, 0 ≤ Carried.zero.deficits key ∧
      Carried.zero.deficits key ≤ largest + (0 : Nat) :=
    fun _ => ⟨le_refl 0, by change (0 : Int) ≤ _; omega⟩
  have hlast : ∀ key, 0 ≤ last.deficits key ∧
      last.deficits key ≤ largest + passes key .zero inputs := by
    intro key
    have hle := deficits_le (fun _ => 0) regular hzero h key
    rwa [Nat.zero_add] at hle
  refine ⟨fun key => (hlast key).2, fun input decision hinput hdecision round hround queue
    hqueue => ?_⟩
  unfold taken
  cases hnext : visit input.batchLimit round with
  | error error =>
    dsimp only
    omega
  | ok next =>
    have hstart : ∀ queue ∈ (last.snapshot input).queues, 0 ≤ queue.deficit ∧
        queue.deficit ≤ largest + passes queue.key .zero inputs :=
      List.forall_mem_map.mpr fun queue _ => hlast queue.key
    exact visit_takes (fun key => passes key .zero inputs) (hinput.carried last) hstart hdecision
      hround hqueue hnext

def tooLarge : Snapshot := offerOf 1 1 [queueOf "a" [2]]

theorem regular_tooLarge : Regular 2 tooLarge := ⟨by decide, by decide⟩

/-- After two such decisions the credit is what it should be at most. -/
theorem deficits_bounded_two :
    ∃ decisions last, decideAll .zero [tooLarge, tooLarge] = .ok (decisions, last) ∧
      last.deficits ("tenant", "a") ≤
        2 + passes ("tenant", "a") .zero [tooLarge, tooLarge] := by
  cases h : decideAll .zero [tooLarge, tooLarge] with
  | error error =>
    have hok : (decideAll .zero [tooLarge, tooLarge]).isOk = true := by decide +kernel
    rw [h] at hok
    cases hok
  | ok result =>
    refine ⟨result.1, result.2, rfl, (deficits_bounded (by decide) ?_ h).1 _⟩
    exact List.forall_mem_cons.mpr ⟨regular_tooLarge,
      List.forall_mem_singleton.mpr regular_tooLarge⟩

/-- A queue whose head never fits the worker is paid on every poll: after three
decisions it has saved more than any job costs. -/
theorem deficit_outgrows_costs : (∀ input ∈ [tooLarge, tooLarge, tooLarge], Regular 2 input) ∧
      (decideAll .zero [tooLarge, tooLarge, tooLarge]).map
        (fun result => result.2.deficits ("tenant", "a")) = .ok 3 := by
  refine ⟨?_, by decide +kernel⟩
  intro input hinput
  obtain rfl : input = tooLarge := by simpa using hinput
  exact regular_tooLarge

end Credit

section Starvation

/-- Every queue that waits in all of the snapshots gets a grant within so many
decisions. -/
def StarvationBound (bound : Nat → Nat → Nat → Nat) : Prop :=
  ∀ (n m w : Nat) (key : String × String) (carried : Carried) (inputs : List Snapshot),
    1 ≤ n → 1 ≤ m → 1 ≤ w → 0 ≤ carried.deficits key → (∀ input ∈ inputs, Contended n m w key input) →
      bound n m w ≤ inputs.length → ∃ decisions last,
        decideAll carried inputs = .ok (decisions, last) ∧
          ∃ decision ∈ decisions, ∃ grant ∈ decision.grants, grant.key = key

/-- The waiting queue stands second in one snapshot and first in the other. -/
def secondOfTwo : Snapshot := offerOf 1 1 [queueOf "a" [1], queueOf "b" [1]]

def firstOfTwo : Snapshot := offerOf 1 1 [queueOf "b" [1], queueOf "c" [1]]

theorem contended_secondOfTwo : Contended 2 1 1 ("tenant", "b") secondOfTwo :=
  ⟨by decide, by decide, by decide, by decide, by decide, by decide, by decide, .inr rfl,
    ⟨_, List.mem_cons_of_mem _ (List.mem_singleton_self _), rfl, _, _, rfl, by decide⟩⟩

theorem contended_firstOfTwo : Contended 2 1 1 ("tenant", "b") firstOfTwo :=
  ⟨by decide, by decide, by decide, by decide, by decide, by decide, by decide, .inr rfl,
    ⟨_, List.mem_cons_self .., rfl, _, _, rfl, by decide⟩⟩

theorem after_of_settled (h : ∀ queue ∈ decision.queues, queue.deficit = 0) :
    Carried.after ⟨cursor, fun _ => 0⟩ decision = ⟨decision.nextCursor, fun _ => 0⟩ := by
  unfold Carried.after
  congr
  funext key
  cases hdeficit : decision.deficit? key with
  | none => rfl
  | some deficit =>
    obtain ⟨queue, hqueue, rfl⟩ := Option.map_eq_some_iff.mp hdeficit
    exact h queue (List.mem_of_find?_eq_some hqueue)

theorem decide_two : ∃ decisions, decideAll .zero [secondOfTwo, firstOfTwo] =
    .ok (decisions, .zero) ∧ ∀ decision ∈ decisions, ∀ grant ∈ decision.grants,
      grant.key ≠ ("tenant", "b") := by
  let first : Decision :=
    ⟨1, [⟨"a", "tenant", "a", 1⟩], [⟨"tenant", "a", 0⟩, ⟨"tenant", "b", 0⟩], 1⟩
  let second : Decision :=
    ⟨1, [⟨"c", "tenant", "c", 1⟩], [⟨"tenant", "b", 0⟩, ⟨"tenant", "c", 0⟩], 0⟩
  have hfirst : Scheduler.decide (Carried.zero.snapshot secondOfTwo) = .ok first := by
    decide +kernel
  have hsecond : Scheduler.decide (Carried.snapshot ⟨1, fun _ => 0⟩ firstOfTwo) = .ok second := by
    decide +kernel
  have hbetween : Carried.zero.after first = ⟨1, fun _ => 0⟩ := after_of_settled (by decide)
  have hlast : Carried.after ⟨1, fun _ => 0⟩ second = .zero := after_of_settled (by decide)
  refine ⟨[first, second], decideAll_cons hfirst ?_, by decide⟩
  rw [hbetween]
  refine decideAll_cons hsecond ?_
  rw [hlast]
  rfl

theorem decide_twos (times : Nat) : ∃ decisions,
    decideAll .zero (List.replicate times [secondOfTwo, firstOfTwo]).flatten =
      .ok (decisions, .zero) ∧
    ∀ decision ∈ decisions, ∀ grant ∈ decision.grants, grant.key ≠ ("tenant", "b") := by
  induction times with
  | zero => exact ⟨[], rfl, fun _ h => (List.not_mem_nil h).elim⟩
  | succ times ih =>
    obtain ⟨decisions, hrest, hnone⟩ := ih
    obtain ⟨pair, hpair, hneither⟩ := decide_two
    refine ⟨pair ++ decisions, ?_, List.forall_mem_append.mpr ⟨hneither, hnone⟩⟩
    rw [List.replicate_succ, List.flatten_cons]
    exact decideAll_append hpair hrest

/-- No bound exists: a queue that waits in every snapshot can be missed for
ever. -/
theorem starvation_unbounded : ¬∃ bound, StarvationBound bound := by
  rintro ⟨bound, hbound⟩
  obtain ⟨decisions, hresult, hnone⟩ := decide_twos (bound 2 1 1)
  have hcontended : ∀ input ∈ (List.replicate (bound 2 1 1) [secondOfTwo, firstOfTwo]).flatten,
      Contended 2 1 1 ("tenant", "b") input := by
    intro input hinput
    obtain ⟨pair, hpair, hinput⟩ := List.mem_flatten.mp hinput
    obtain rfl := List.eq_of_mem_replicate hpair
    rcases List.mem_pair.mp hinput with rfl | rfl
    · exact contended_secondOfTwo
    · exact contended_firstOfTwo
  obtain ⟨_, _, hagain, decision, hdecision, grant, hgrant, hkey⟩ :=
    hbound 2 1 1 ("tenant", "b") .zero _ (by decide) (by decide) (by decide) (le_refl 0) hcontended
      (by simp [List.length_flatten]; omega)
  rw [hresult] at hagain
  cases hagain
  exact hnone decision hdecision grant hgrant hkey

theorem contended_isOk (contended : Contended n m w key input) (carried : Carried) :
    ∃ decision, Scheduler.decide (carried.snapshot input) = .ok decision := by
  have hslots := contended.slots
  have hlimit := contended.limit
  refine decide_isOk (by change 0 ≤ input.workerSlots; omega)
    (by change 0 ≤ input.batchLimit; omega) contended.known ?_
  refine List.forall_mem_map.mpr fun queue hqueue candidate hcandidate => ?_
  exact (contended.costs queue hqueue candidate hcandidate).1

theorem decideAll_isOk (contended : ∀ input ∈ inputs, Contended n m w key input) (carried : Carried)
    :
    ∃ decisions last, decideAll carried inputs = .ok (decisions, last) := by
  induction inputs generalizing carried with
  | nil => exact ⟨[], carried, rfl⟩
  | cons input inputs ih =>
    rw [List.forall_mem_cons] at contended
    obtain ⟨decision, hdecision⟩ := contended_isOk contended.1 carried
    obtain ⟨decisions, last, hrest⟩ := ih contended.2 (carried.after decision)
    exact ⟨decision :: decisions, last, decideAll_cons hdecision hrest⟩

theorem served_within {keys : List (String × String)} (nonneg : 0 ≤ carried.deficits key)
    (contended : ∀ input ∈ inputs, Contended n m w key input)
    (steady : ∀ input ∈ inputs, (input.queues.map Queue.key).Perm keys)
    (hplace : (ordered keys)[place]? = some key) (unpassed : passes key carried inputs = 0)
    (enough : reach m keys.length place (carried.deficits key) (carried.place keys.length) <
      inputs.length) :
    ∃ decisions last, decideAll carried inputs = .ok (decisions, last) ∧
      ∃ decision ∈ decisions, ∃ grant ∈ decision.grants, grant.key = key := by
  induction inputs generalizing carried with
  | nil => exact (Nat.not_lt_zero _ enough).elim
  | cons input inputs ih =>
    rw [List.forall_mem_cons] at contended steady
    obtain ⟨decision, hdecision⟩ := contended_isOk contended.1 carried
    rw [passes_cons key hdecision, Nat.add_eq_zero_iff] at unpassed
    rcases reach_decide nonneg steady.1 contended.1 hplace unpassed.1 hdecision with
      hgranted | ⟨hnonneg, hnearer⟩
    · obtain ⟨decisions, last, hrest⟩ := decideAll_isOk contended.2 (carried.after decision)
      exact ⟨_, last, decideAll_cons hdecision hrest, decision, List.mem_cons_self .., hgranted⟩
    · rw [List.length_cons] at enough
      obtain ⟨decisions, last, hrest, later, hlater, hgranted⟩ :=
        ih hnonneg contended.2 steady.2 unpassed.2 (by omega)
      exact ⟨_, last, decideAll_cons hdecision hrest, later, List.mem_cons_of_mem _ hlater,
        hgranted⟩

/-- Over the same queues every time, a queue that is never passed over for want
of slots is served within `n * m` decisions. -/
theorem starvation_bounded (keys : List (String × String)) {n m w : Nat}
    {key : String × String} {carried : Carried} {inputs : List Snapshot} (hn : 1 ≤ n) (hm : 1 ≤ m)
    (nonneg : 0 ≤ carried.deficits key)
    (contended : ∀ input ∈ inputs, Contended n m w key input)
    (steady : ∀ input ∈ inputs, (input.queues.map Queue.key).Perm keys)
    (unpassed : passes key carried inputs = 0) (enough : n * m ≤ inputs.length) :
    ∃ decisions last, decideAll carried inputs = .ok (decisions, last) ∧
      ∃ decision ∈ decisions, ∃ grant ∈ decision.grants, grant.key = key := by
  have hpositive := Nat.mul_pos hn hm
  obtain ⟨input, hinput⟩ := List.exists_mem_of_length_pos (Nat.lt_of_lt_of_le hpositive enough)
  have hkeys := steady input hinput
  obtain ⟨queue, hqueue, hname, _⟩ := (contended input hinput).waits
  have hmem : key ∈ ordered keys := by
    rw [(ordered_perm keys).mem_iff, ← hkeys.mem_iff, ← hname]
    exact List.mem_map_of_mem hqueue
  obtain ⟨place, hplace⟩ := List.mem_iff_getElem?.mp hmem
  have hplaces : 0 < keys.length := by
    rw [← (ordered_perm keys).length_eq]
    exact Nat.zero_lt_of_lt (List.getElem?_eq_some_iff.mp hplace).1
  have hfew : keys.length ≤ n := by
    rw [← hkeys.length_eq, List.length_map]
    exact (contended input hinput).few
  refine served_within nonneg contended steady hplace unpassed ?_
  calc reach m keys.length place (carried.deficits key) (carried.place keys.length)
    _ < keys.length * m := reach_lt hm hplaces nonneg
    _ ≤ n * m := Nat.mul_le_mul_right m hfew
    _ ≤ inputs.length := enough

/-- Two queues of one-slot jobs, and a worker with one slot, twice. -/
theorem starvation_bounded_two : ∃ decisions last,
    decideAll .zero [secondOfTwo, secondOfTwo] = .ok (decisions, last) ∧
      ∃ decision ∈ decisions, ∃ grant ∈ decision.grants, grant.key = ("tenant", "b") := by
  have hboth : ∀ input ∈ [secondOfTwo, secondOfTwo], input = secondOfTwo := by simp
  refine starvation_bounded [("tenant", "a"), ("tenant", "b")] (n := 2) (m := 1) (w := 1)
    (by decide) (by decide) (le_refl 0) ?_ ?_ (by decide +kernel) (by decide)
  · intro input hinput
    rw [hboth input hinput]
    exact contended_secondOfTwo
  · intro input hinput
    rw [hboth input hinput]
    exact .refl _

end Starvation

end RailYard.Properties
