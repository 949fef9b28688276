import RailYard.Store.WriteGate
import Mathlib.Algebra.BigOperators.Group.Finset.Piecewise
import Mathlib.Data.Finset.Max

/-! The write gate is a priority lock: whatever the goroutines do, one of them at
most has the gate, nobody takes it past a waiter of a higher priority, and a free
gate with waiters always has one awake who will take it. -/
namespace RailYard.Properties.WriteGate
open Store

variable {ι : Type} [Fintype ι] {state : Writers ι}

def count (kind : GatePhase → Bool) (phase : ι → GatePhase) : Nat :=
  (Finset.univ.filter fun writer => kind (phase writer) = true).card

theorem count_pos {kind : GatePhase → Bool} {phase : ι → GatePhase} :
    0 < count kind phase ↔ ∃ writer, kind (phase writer) = true := by
  simp [count, Finset.card_pos, Finset.filter_nonempty_iff]

theorem count_wake {kind : GatePhase → Bool} (h : ∀ phase, kind phase.wake = kind phase)
    (phase : ι → GatePhase) : count kind (fun writer => (phase writer).wake) = count kind phase := by
  simp only [count, h]

theorem hasHigherWaiter_iff {gate : WriteGate} : gate.hasHigherWaiter priority = true ↔
    ∃ higher, priority < higher ∧ 0 < gate.waiters higher := by
  simp [WriteGate.hasHigherWaiter]

def isHolding (phase : GatePhase) : Bool := phase = .holding

/-- Who sleeps at a free gate has a waiter of a higher priority before it. -/
structure Guarded (state : Writers ι) : Prop where
  holders : count isHolding state.phase = state.gate.active.toNat
  counted : ∀ priority, state.gate.waiters priority = count (·.waits priority) state.phase
  awake : state.gate.active = false → ∀ writer priority, state.phase writer = .asleep priority →
    ∃ higher, priority < higher ∧ 0 < state.gate.waiters higher

theorem Guarded.start : Guarded (Writers.start : Writers ι) where
  holders := by simp [count, isHolding, Writers.start, newWriteGate]
  counted := by simp [count, Writers.start, newWriteGate, GatePhase.waits]
  awake := by simp [Writers.start]

variable [DecidableEq ι]

theorem count_update (kind : GatePhase → Bool) (phase : ι → GatePhase) (writer : ι)
    (next : GatePhase) :
    count kind (Function.update phase writer next) + (kind (phase writer)).toNat =
      count kind phase + (kind next).toNat := by
  have hothers : ∑ other ∈ Finset.univ.erase writer,
      (if kind (Function.update phase writer next other) = true then 1 else 0) =
      ∑ other ∈ Finset.univ.erase writer, if kind (phase other) = true then 1 else 0 := by
    refine Finset.sum_congr rfl fun other hother => ?_
    rw [Function.update_of_ne (Finset.ne_of_mem_erase hother)]
  unfold count
  rw [Finset.card_filter, Finset.card_filter,
    ← Finset.add_sum_erase Finset.univ _ (Finset.mem_univ writer),
    ← Finset.add_sum_erase Finset.univ (fun other => if kind (phase other) = true then 1 else 0)
      (Finset.mem_univ writer), hothers, Function.update_self]
  cases kind next <;> cases kind (phase writer) <;> simp <;> omega

/-- Whoever takes the gate does so at a priority above which nobody waits. -/
def Ordered (state : Writers ι) : Prop :=
  ∀ event writer, state.phase writer ≠ .holding → (state.advance event).phase writer = .holding →
    ∃ priority, (event = .lock writer priority ∨
        event = .resume writer ∧ state.phase writer = .woken priority) ∧
      ∀ higher, priority < higher → state.gate.waiters higher = 0

/-- If anyone waits at a free gate, a waiter of the highest priority is awake, and
it takes the gate when it is scheduled. -/
def Live (state : Writers ι) : Prop :=
  state.gate.active = false → ∀ writer priority, (state.phase writer).waits priority = true →
    ∃ next highest, state.phase next = .woken highest ∧
      (∀ other low, (state.phase other).waits low = true → low ≤ highest) ∧
      (state.advance (.resume next)).phase next = .holding

namespace Guarded

theorem arrive (h : Guarded state) (houtside : state.phase writer = .outside) :
    Guarded (state.arrive writer priority) where
  holders := by
    have hupdate := count_update isHolding state.phase writer (.woken priority)
    rw [houtside, h.holders] at hupdate
    exact hupdate
  counted := by
    intro other
    have hupdate := count_update (·.waits other) state.phase writer (.woken priority)
    rw [houtside] at hupdate
    rcases eq_or_ne priority other with rfl | hne
    · simp [Writers.arrive, GatePhase.waits, h.counted] at hupdate ⊢
      omega
    · simp [Writers.arrive, GatePhase.waits, h.counted, hne, hne.symm] at hupdate ⊢
      omega
  awake := by
    intro hfree other low hasleep
    simp only [Writers.arrive, Function.update_apply] at hasleep ⊢
    split at hasleep
    · cases hasleep
    · obtain ⟨higher, hlt, hpos⟩ := h.awake hfree other low hasleep
      refine ⟨higher, hlt, ?_⟩
      split
      · rename_i hsame
        rw [← hsame]
        omega
      · exact hpos

theorem wait (h : Guarded state) (hwoken : state.phase writer = .woken priority)
    (hblocked : state.gate.active = false →
      ∃ higher, priority < higher ∧ 0 < state.gate.waiters higher) :
    Guarded { state with phase := Function.update state.phase writer (.asleep priority) } where
  holders := by
    have hupdate := count_update isHolding state.phase writer (.asleep priority)
    rw [hwoken, h.holders] at hupdate
    exact hupdate
  counted := by
    intro other
    have hupdate := count_update (·.waits other) state.phase writer (.asleep priority)
    simp only [hwoken, GatePhase.waits, reduceCtorEq, decide_false, Bool.or_false,
      Bool.false_or, GatePhase.asleep.injEq, GatePhase.woken.injEq, Nat.add_right_cancel_iff] at hupdate
    rw [h.counted]
    exact congrArg Nat.cast hupdate.symm
  awake := by
    intro hfree other low hasleep
    dsimp only at hasleep
    rw [Function.update_apply] at hasleep
    split at hasleep
    · cases hasleep
      exact hblocked hfree
    · exact h.awake hfree other low hasleep

theorem acquire (h : Guarded state) (hwoken : state.phase writer = .woken priority)
    (hfree : state.gate.active = false) :
    Guarded {
      gate := {
        active := true
        waiters := Function.update state.gate.waiters priority (state.gate.waiters priority - 1) }
      phase := Function.update state.phase writer .holding } where
  holders := by
    have hupdate := count_update isHolding state.phase writer .holding
    rw [hwoken, h.holders, hfree] at hupdate
    exact hupdate
  counted := by
    intro other
    have hupdate := count_update (·.waits other) state.phase writer .holding
    rw [hwoken] at hupdate
    rcases eq_or_ne priority other with rfl | hne
    · simp [GatePhase.waits, h.counted] at hupdate ⊢
      omega
    · simp [GatePhase.waits, h.counted, hne, hne.symm] at hupdate ⊢
      omega
  awake := by simp

theorem attempt (h : Guarded state) (hwoken : state.phase writer = .woken priority) :
    Guarded (state.attempt writer priority) := by
  unfold Writers.attempt
  split
  · rename_i hblocked
    refine h.wait hwoken fun hfree => ?_
    rw [hfree, Bool.false_or] at hblocked
    exact hasHigherWaiter_iff.mp hblocked
  · rename_i hopen
    simp only [Bool.or_eq_true, not_or, Bool.not_eq_true] at hopen
    exact h.acquire hwoken hopen.1

theorem release (h : Guarded state) (hholding : state.phase writer = .holding) :
    Guarded (state.release writer) where
  holders := by
    have hupdate := count_update isHolding state.phase writer .outside
    have hactive : count isHolding state.phase ≤ 1 := by
      rw [h.holders]
      exact Bool.toNat_le _
    rw [hholding] at hupdate
    rw [Writers.release, count_wake fun phase => by cases phase <;> rfl]
    change _ + 1 = _ + 0 at hupdate
    change _ = 0
    omega
  counted := by
    intro other
    have hupdate := count_update (·.waits other) state.phase writer .outside
    rw [hholding] at hupdate
    rw [Writers.release, count_wake fun phase => by cases phase <;> simp [GatePhase.waits, GatePhase.wake]]
    exact (h.counted other).trans (congrArg Nat.cast hupdate.symm)
  awake := by
    intro _ other low hasleep
    dsimp only [Writers.release] at hasleep
    cases hphase : Function.update state.phase writer .outside other <;>
      rw [hphase] at hasleep <;> cases hasleep

theorem advance (h : Guarded state) (event : GateEvent ι) : Guarded (state.advance event) := by
  cases event with
  | lock writer priority =>
    dsimp only [Writers.advance]
    split
    · rename_i houtside
      exact (h.arrive houtside).attempt (by simp [Writers.arrive])
    · exact h
  | resume writer =>
    dsimp only [Writers.advance]
    split
    · rename_i priority hwoken
      exact h.attempt hwoken
    · exact h
  | unlock writer =>
    dsimp only [Writers.advance]
    split
    · rename_i hholding
      exact h.release hholding
    · exact h

theorem run (events : List (GateEvent ι)) : Guarded (Writers.run events) := by
  have hfold : ∀ state : Writers ι, Guarded state →
      Guarded (events.foldl Writers.advance state) := by
    induction events with
    | nil => exact fun _ h => h
    | cons event rest ih => exact fun _ h => ih _ (h.advance event)
  exact hfold _ start

theorem live (h : Guarded state) : Live state := by
  intro hfree writer priority hwaits
  have hcounted : (Finset.univ.filter fun low => 0 < state.gate.waiters low).Nonempty := by
    refine ⟨priority, Finset.mem_filter.mpr ⟨Finset.mem_univ _, ?_⟩⟩
    rw [h.counted]
    exact Int.natCast_pos.mpr (count_pos.mpr ⟨writer, hwaits⟩)
  obtain ⟨highest, hhighest, hmax⟩ := Finset.exists_max_image _ id hcounted
  simp only [Finset.mem_filter, Finset.mem_univ, true_and, id] at hhighest hmax
  have hnone : ¬∃ higher, highest < higher ∧ 0 < state.gate.waiters higher :=
    fun ⟨higher, hlt, hpos⟩ => absurd (hmax higher hpos) (not_le.mpr hlt)
  rw [h.counted, Int.natCast_pos, count_pos] at hhighest
  obtain ⟨next, hnext⟩ := hhighest
  have hwoken : state.phase next = .woken highest := by
    simp only [GatePhase.waits, Bool.or_eq_true, decide_eq_true_eq] at hnext
    exact hnext.resolve_left fun hasleep => hnone (h.awake hfree next highest hasleep)
  refine ⟨next, highest, hwoken, fun other low hlow => hmax low ?_, ?_⟩
  · rw [h.counted, Int.natCast_pos, count_pos]
    exact ⟨other, hlow⟩
  · rw [← hasHigherWaiter_iff] at hnone
    simp [Writers.advance, hwoken, Writers.attempt, hfree, hnone]

omit [Fintype ι] in
theorem holding_of_attempt (hbefore : state.phase writer ≠ .holding)
    (hafter : (state.attempt other priority).phase writer = .holding) :
    writer = other ∧ ∀ higher, priority < higher → ¬0 < state.gate.waiters higher := by
  have hsame : writer = other := by
    by_contra hne
    unfold Writers.attempt at hafter
    split at hafter <;> exact hbefore (by simpa [hne] using hafter)
  refine ⟨hsame, fun higher hlt hpos => ?_⟩
  have hblocked : state.gate.hasHigherWaiter priority = true :=
    hasHigherWaiter_iff.mpr ⟨higher, hlt, hpos⟩
  simp [Writers.attempt, hblocked, hsame] at hafter

theorem ordered (h : Guarded state) : Ordered state := by
  intro event writer hbefore hafter
  have hzero : ∀ higher, ¬0 < state.gate.waiters higher → state.gate.waiters higher = 0 := by
    intro higher hpos
    rw [h.counted] at hpos ⊢
    omega
  cases event with
  | lock other priority =>
    dsimp only [Writers.advance] at hafter
    split at hafter
    · rename_i houtside
      have hwoken : (state.arrive other priority).phase writer ≠ .holding := by
        dsimp only [Writers.arrive]
        rw [Function.update_apply]
        split
        · exact GatePhase.noConfusion
        · exact hbefore
      obtain ⟨rfl, hnone⟩ := holding_of_attempt hwoken hafter
      refine ⟨priority, .inl rfl, fun higher hlt => hzero higher ?_⟩
      have harrived := hnone higher hlt
      dsimp only [Writers.arrive] at harrived
      rwa [Function.update_of_ne hlt.ne'] at harrived
    · exact (hbefore hafter).elim
  | resume other =>
    dsimp only [Writers.advance] at hafter
    split at hafter
    · rename_i priority hwoken
      obtain ⟨rfl, hnone⟩ := holding_of_attempt hbefore hafter
      exact ⟨priority, .inr ⟨rfl, hwoken⟩, fun higher hlt => hzero higher (hnone higher hlt)⟩
    · exact (hbefore hafter).elim
  | unlock other =>
    dsimp only [Writers.advance] at hafter
    split at hafter
    · dsimp only [Writers.release] at hafter
      rw [Function.update_apply] at hafter
      split at hafter
      · cases hafter
      · cases hphase : state.phase writer <;> rw [hphase] at hafter hbefore <;>
          first | cases hafter; done | exact (hbefore rfl).elim
    · exact (hbefore hafter).elim

end Guarded

structure PriorityLock (state : Writers ι) : Prop where
  exclusive : ∀ first second, state.phase first = .holding → state.phase second = .holding →
    first = second
  held : state.gate.active = true ↔ ∃ writer, state.phase writer = .holding
  counted : ∀ priority, state.gate.waiters priority = count (·.waits priority) state.phase
  ordered : Ordered state
  live : Live state

theorem write_gate_correct (ι : Type) [DecidableEq ι] [Fintype ι] (events : List (GateEvent ι)) :
    PriorityLock (Writers.run events) where
  exclusive := by
    have hone : count isHolding (Writers.run events).phase ≤ 1 := by
      rw [(Guarded.run events).holders]
      exact Bool.toNat_le _
    intro first second hfirst hsecond
    exact Finset.card_le_one.mp hone first (by simp [isHolding, hfirst]) second
      (by simp [isHolding, hsecond])
  held := by
    have hpos : 0 < count isHolding (Writers.run events).phase ↔ _ := count_pos
    rw [(Guarded.run events).holders] at hpos
    cases hactive : (Writers.run events).gate.active <;>
      simpa [hactive, isHolding] using hpos
  counted := (Guarded.run events).counted
  ordered := (Guarded.run events).ordered
  live := (Guarded.run events).live

end RailYard.Properties.WriteGate
