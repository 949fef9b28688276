import RailYard.Lifecycle.Ledger
import RailYard.Lifecycle.Graph
import RailYard.Lifecycle.Readiness
import RailYard.Lifecycle.Depth

/-! All invariants of a yard together, along every sequence of changes. -/
namespace RailYard.Lifecycle
open Library Store Relation

structure Coherent (yard : Yard) : Prop where
  ledger : Ledger yard
  chronicle : Chronicle yard
  accounts : Accounts yard
  fences : Fences yard
  graph : Graph yard

structure Sound (yard : Yard) : Prop extends Coherent yard where
  propagated : Propagated yard

def Yard.empty : Yard where
  jobs := .empty
  edges := .empty
  attempts := .empty
  completions := .empty
  deadLetters := fun _ => false
  tenants := .empty
  queueSlots := fun _ => none
  history := []
  readySeq := 0

theorem Coherent.micro (yard yard' : Yard) (h : Coherent yard) (hstep : Micro policy yard yard') :
    Coherent yard' where
  ledger := h.ledger.micro _ _ hstep
  chronicle := h.chronicle.micro _ _ hstep
  accounts := h.accounts.micro _ _ hstep
  fences := h.fences.micro _ _ hstep
  graph := h.graph.micro _ _ hstep

theorem Coherent.micros (h : Coherent yard) (hsteps : ReflTransGen (Micro policy) yard yard') :
    Coherent yard' :=
  preserved Coherent.micro hsteps h

theorem Sound.step (h : Sound yard) (hstep : Step policy yard yard') : Sound yard' where
  toCoherent := h.toCoherent.micros hstep.micros
  propagated := h.propagated.step _ _ h.graph hstep

theorem Sound.steps (h : Sound yard) (hsteps : ReflTransGen (Step policy) yard yard') :
    Sound yard' := by
  induction hsteps with
  | refl => exact h
  | tail _ hlast ih => exact ih.step hlast

theorem dependsOn_empty (child parent : String) : ¬Yard.empty.DependsOn child parent := by
  unfold Yard.DependsOn Yard.empty
  rw [Table.mem_keys_iff]
  rintro ⟨_, h⟩
  cases h

theorem sound_empty : Sound Yard.empty where
  ledger := ⟨fun _ _ h => (by cases h), fun _ _ => ⟨rfl, rfl⟩⟩
  chronicle := ⟨fun _ _ h => (by cases h), fun _ _ => rfl, rfl⟩
  accounts := ⟨fun _ _ h => (by cases h), fun _ _ h => (by cases h), fun _ _ h => (by cases h),
    fun _ _ h => (by cases h), fun _ _ h => (by cases h), fun _ _ h => (by cases h)⟩
  fences := ⟨fun _ _ h => (by cases h), fun _ _ _ h => (by cases h), fun _ _ _ h => (by cases h),
    le_refl _, fun _ _ h => (by cases h)⟩
  graph := by
    refine ⟨fun child parent h => (dependsOn_empty child parent h).elim, fun id h => ?_⟩
    obtain ⟨child, hedge, _⟩ := TransGen.head'_iff.mp h
    exact dependsOn_empty child id hedge
  propagated := fun child parent _ _ h => (dependsOn_empty child parent h).elim

theorem Tidy.steps (tidy : policy.tidy) (h : Tidy yard)
    (hsteps : ReflTransGen (Step policy) yard yard') : Tidy yard' :=
  preserved (Tidy.micro tidy) (micros_of_steps hsteps) h

theorem Gated.steps (gated : policy.gated) (h : Gated yard) (coherent : Coherent yard)
    (hsteps : ReflTransGen (Step policy) yard yard') : Gated yard' := by
  have hboth : Gated yard' ∧ Coherent yard' :=
    preserved (motive := fun yard => Gated yard ∧ Coherent yard)
      (fun _ _ hboth hstep => ⟨hboth.1.micro gated _ _ hboth.2.graph hboth.2.fences hstep,
        hboth.2.micro _ _ hstep⟩)
      (micros_of_steps hsteps) ⟨h, coherent⟩
  exact hboth.1

structure Orderly (yard : Yard) : Prop where
  places : Places yard
  depth : WithinDepth yard

theorem orderly_empty : Orderly Yard.empty where
  places := ⟨fun _ _ _ _ h => (by cases h), fun _ _ h => (by cases h), fun _ => Nat.zero_le 1,
    fun _ _ _ _ _ => rfl⟩
  depth := fun _ _ h => (by cases h)

theorem Orderly.steps (h : Orderly yard) (coherent : Coherent yard)
    (hsteps : ReflTransGen (Step policy) yard yard') : Orderly yard' := by
  have hboth : Orderly yard' ∧ Coherent yard' :=
    preserved (motive := fun yard => Orderly yard ∧ Coherent yard)
      (fun _ _ ⟨horderly, hcoherent⟩ hstep =>
        ⟨⟨horderly.places.micro _ _ hcoherent.fences hcoherent.chronicle hstep,
          horderly.depth.micro _ _ hcoherent.accounts hstep⟩, hcoherent.micro _ _ hstep⟩)
      (micros_of_steps hsteps) ⟨h, coherent⟩
  exact hboth.1

end RailYard.Lifecycle
