import RailYard.Lifecycle.Edges
import RailYard.Lifecycle.History

/-! What the history says about the states between two entries of a job: apart
from the annotations, each entry is an edge that its policy accepts. -/
namespace RailYard.Lifecycle
open Store Relation

def Linked (policy : Policy) (id : String) (previous next : Entry) : Prop :=
  isNote next.eventType = true ∨ policy.edges id next.eventType previous.state next.state

def Labelled (policy : Policy) (yard : Yard) : Prop :=
  ∀ id, (entriesOf id yard.history).IsChain (Linked policy id)

theorem Labelled.of_same (h : Labelled policy yard) (history : yard'.history = yard.history) :
    Labelled policy yard' := by
  unfold Labelled
  rw [history]
  exact h

theorem Labelled.record {id : String} (h : Labelled policy yard) (chronicle : Chronicle yard)
    (found : yard.jobs.get? id = some row) (stateVersion : Int)
    (hlink : isNote eventType = true ∨ policy.edges id eventType row.state state)
    (history : yard'.history = record yard.history id eventType state stateVersion) :
    Labelled policy yard' := by
  unfold Labelled
  rw [history]
  intro id'
  by_cases hid : id' = id
  · subst hid
    obtain ⟨previous, hlast, hstate, _⟩ := (chronicle.timeline id' row found).last
    rw [entriesOf_record_self]
    refine List.IsChain.append (h id') (List.isChain_singleton _) ?_
    intro found hfound next hnext
    rw [hlast, Option.mem_def, Option.some.injEq] at hfound
    rw [List.head?_cons, Option.mem_def, Option.some.injEq] at hnext
    rw [← hfound, ← hnext]
    unfold Linked
    rw [hstate]
    exact hlink
  · rw [entriesOf_record_ne _ _ _ _ hid]
    exact h id'

theorem Labelled.admission {batch : Batch} (h : Labelled policy yard)
    (chronicle : Chronicle yard) (valid : batch.Valid yard) :
    Labelled policy (batch.apply yard) := by
  intro id
  change (entriesOf id (admissions batch.jobs yard.history)).IsChain _
  by_cases hid : id ∈ batch.ids
  · obtain ⟨row, hrow⟩ := Batch.mem_ids.mp hid
    obtain ⟨eventSeq, hentries⟩ := entriesOf_admissions_of_mem valid.nodup hrow
      (chronicle.absent id (valid.fresh id hid))
    rw [hentries]
    exact List.isChain_singleton _
  · rw [entriesOf_admissions_of_notMem _ _ hid]
    exact h id

theorem Labelled.micro (h : Labelled policy yard) (chronicle : Chronicle yard)
    (hstep : Micro policy yard yard') : Labelled policy yard' := by
  cases hstep with
  | tenant => exact h.of_same rfl
  | queue => exact h.of_same rfl
  | heartbeat => exact h.of_same rfl
  | admission batch valid => exact h.admission chronicle valid
  | note id row action found haction _ =>
    have hnote : isNote (.operator action) = true := by
      rcases haction with rfl | rfl <;> rfl
    exact h.record chronicle found _ (.inl hnote) rfl
  | move move valid => exact h.record chronicle valid.found _ (.inr valid.edge) rfl

theorem Labelled.micros (h : Labelled policy yard) (chronicle : Chronicle yard)
    (hmicros : ReflTransGen (Micro policy) yard yard') : Labelled policy yard' := by
  have hboth := preserved (motive := fun yard => Chronicle yard ∧ Labelled policy yard)
    (fun yard yard' hold hstep => ⟨hold.1.micro yard yard' hstep, hold.2.micro hold.1 hstep⟩)
    hmicros ⟨chronicle, h⟩
  exact hboth.2

def edgePolicy : Policy :=
  { edges := fun id eventType state next => ∃ cause, Edge cause id eventType state next }

theorem edgePolicy_allows (cause : Cause) : edgePolicy.Allows cause :=
  fun _ _ _ _ hedge => ⟨cause, hedge⟩

end RailYard.Lifecycle
