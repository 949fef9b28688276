import RailYard.Lifecycle.History
import RailYard.Lifecycle.Leases

/-! The ready order. Places are drawn from one counter and held by waiting jobs
only; a waiting job without a place has never had one, so its parents can
release it at most once. -/
namespace RailYard.Lifecycle
open Domain Store Relation

def releases (id : String) (history : List Entry) : Nat :=
  history.countP fun entry => entry.jobID = id && entry.eventType = .dependencyReleased

theorem releases_record (id : String) (history : List Entry) (jobID : String)
    (eventType : EventType) (state : JobState) (stateVersion : Int) :
    releases id (record history jobID eventType state stateVersion) =
      releases id history + if jobID = id ∧ eventType = .dependencyReleased then 1 else 0 := by
  simp [releases, record, List.countP_append, List.countP_cons]

theorem releases_admissions (id : String) (jobs : List (String × JobRow)) (history : List Entry) :
    releases id (admissions jobs history) = releases id history := by
  induction jobs generalizing history with
  | nil => rfl
  | cons entry rest ih =>
    exact (ih _).trans (by simp [releases_record])

structure Places (yard : Yard) : Prop where
  distinct : ∀ id id' row row', yard.jobs.get? id = some row → yard.jobs.get? id' = some row' →
    0 < row.readySeq → row.readySeq = row'.readySeq → id = id'
  unstarted : ∀ id row, yard.jobs.get? id = some row → row.state = .pending →
    row.readySeq = 0 → row.attemptNo = 0
  once : ∀ id, releases id yard.history ≤ 1
  never : ∀ id row, yard.jobs.get? id = some row → row.state = .pending →
    row.readySeq = 0 → releases id yard.history = 0

theorem Places.of_same (h : Places yard) (jobs : yard'.jobs = yard.jobs)
    (history : ∀ id, releases id yard'.history = releases id yard.history) : Places yard' where
  distinct := by simpa [jobs] using h.distinct
  unstarted := by simpa [jobs] using h.unstarted
  once := by simpa [history] using h.once
  never := by simpa [jobs, history] using h.never

theorem Move.Valid.drawn {move : Move} (valid : move.Valid policy yard)
    (hpending : move.next.state = .pending) : move.next.readySeq = yard.readySeq + 1 := by
  cases valid.readiness with
  | drawn _ seq => exact seq
  | kept _ away => exact (away hpending).elim
  | dropped away => exact (away hpending).elim

theorem Move.Valid.new_place {move : Move} (valid : move.Valid policy yard) (fences : Fences yard)
    (h : 0 < move.next.readySeq) : yard.readySeq < move.next.readySeq := by
  obtain ⟨_, _, hready⟩ := fences.ready move.id move.row valid.found
  cases valid.readiness with
  | drawn _ seq => omega
  | kept busy _ seq => exact (busy (hready (seq ▸ h))).elim
  | dropped _ seq => omega

theorem Places.move {move : Move} (h : Places yard) (fences : Fences yard)
    (valid : move.Valid policy yard) : Places (move.apply yard) where
  distinct := by
    intro id id' row row' hrow hrow' hpositive heq
    rcases Move.get?_apply_cases valid hrow with ⟨rfl, rfl⟩ | ⟨_, hold⟩ <;>
      rcases Move.get?_apply_cases valid hrow' with ⟨rfl, rfl⟩ | ⟨_, hold'⟩
    · rfl
    · have hnew := valid.new_place fences hpositive
      have hle := (fences.ready id' row' hold').2.1
      omega
    · have hnew := valid.new_place fences (heq ▸ hpositive)
      have hle := (fences.ready id row hold).2.1
      omega
    · exact h.distinct id id' row row' hold hold' hpositive heq
  unstarted := by
    intro id row hrow hpending hzero
    rcases Move.get?_apply_cases valid hrow with ⟨rfl, rfl⟩ | ⟨_, hold⟩
    · have hdrawn := valid.drawn hpending
      have hcounter := fences.counter
      omega
    · exact h.unstarted id row hold hpending hzero
  once := by
    intro id
    change releases id (record _ _ _ _ _) ≤ 1
    rw [releases_record]
    split_ifs with hreleased
    · obtain ⟨rfl, htype⟩ := hreleased
      obtain ⟨hpending, hzero⟩ := valid.released htype
      rw [h.never move.id move.row valid.found hpending hzero]
    · exact h.once id
  never := by
    intro id row hrow hpending hzero
    rcases Move.get?_apply_cases valid hrow with ⟨rfl, rfl⟩ | ⟨hne, hold⟩
    · have hdrawn := valid.drawn hpending
      have hcounter := fences.counter
      omega
    · change releases id (record _ _ _ _ _) = 0
      rw [releases_record, if_neg fun hsame => hne hsame.1.symm]
      exact h.never id row hold hpending hzero

theorem releases_of_absent (chronicle : Chronicle yard) {id : String}
    (h : yard.jobs.get? id = none) : releases id yard.history = 0 := by
  have hnone := chronicle.absent id h
  unfold releases
  rw [List.countP_eq_zero]
  intro entry hentry hreleased
  have hmem : entry ∈ entriesOf id yard.history := by
    simp_all [entriesOf]
  simp [hnone] at hmem

theorem Places.admission {batch : Batch} (h : Places yard) (fences : Fences yard)
    (chronicle : Chronicle yard) (valid : batch.Valid yard) : Places (batch.apply yard) where
  distinct := by
    -- New places lie above the counter, and the batch draws them in order.
    have hnew : ∀ id row, (id, row) ∈ batch.jobs → 0 < row.readySeq →
        yard.readySeq < row.readySeq := by
      intro id row hmem hpositive
      rcases (valid.rows id row hmem).readySeq with hzero | ⟨_, hlow, _⟩ <;> omega
    have hapart : ∀ id id' row row', (id, row) ∈ batch.jobs → (id', row') ∈ batch.jobs →
        0 < row.readySeq → row.readySeq = row'.readySeq → id = id' := by
      intro id id' row row' hmem hmem'
      let Apart (first second : String × JobRow) : Prop :=
        0 < first.2.readySeq → first.2.readySeq = second.2.readySeq → first.1 = second.1
      have hsymm : Std.Symm Apart :=
        ⟨fun first second hsame hpositive heq => (hsame (heq ▸ hpositive) heq.symm).symm⟩
      have hplaces : batch.jobs.Pairwise Apart :=
        valid.places.imp fun hless hpositive heq => by
          have hlt := hless (heq ▸ hpositive)
          omega
      exact hplaces.forall_of_forall (fun _ _ _ _ => rfl) hmem hmem'
    intro id id' row row' hrow hrow' hpositive heq
    rcases Batch.get?_apply_cases valid hrow with ⟨hmem, _⟩ | ⟨_, hold⟩ <;>
      rcases Batch.get?_apply_cases valid hrow' with ⟨hmem', _⟩ | ⟨_, hold'⟩
    · exact hapart id id' row row' hmem hmem' hpositive heq
    · have hlow := hnew id row hmem hpositive
      have hle := (fences.ready id' row' hold').2.1
      omega
    · have hlow := hnew id' row' hmem' (heq ▸ hpositive)
      have hle := (fences.ready id row hold).2.1
      omega
    · exact h.distinct id id' row row' hold hold' hpositive heq
  unstarted := by
    intro id row hrow hpending hzero
    rcases Batch.get?_apply_cases valid hrow with ⟨hmem, _⟩ | ⟨_, hold⟩
    · exact (valid.rows id row hmem).attemptNo
    · exact h.unstarted id row hold hpending hzero
  once := by
    intro id
    exact (releases_admissions id batch.jobs yard.history).trans_le (h.once id)
  never := by
    intro id row hrow hpending hzero
    refine (releases_admissions id batch.jobs yard.history).trans ?_
    rcases Batch.get?_apply_cases valid hrow with ⟨_, habsent⟩ | ⟨_, hold⟩
    · exact releases_of_absent chronicle habsent
    · exact h.never id row hold hpending hzero

theorem Places.micro (yard yard' : Yard) (h : Places yard) (fences : Fences yard)
    (chronicle : Chronicle yard) (hstep : Micro policy yard yard') : Places yard' := by
  cases hstep with
  | tenant | queue | heartbeat => exact h.of_same rfl fun _ => rfl
  | admission batch valid => exact h.admission fences chronicle valid
  | note => exact h.of_same rfl fun id => by simp [releases_record]
  | move move valid => exact h.move fences valid

structure DrawsAbove (yard yard' : Yard) : Prop where
  counter : yard.readySeq ≤ yard'.readySeq
  place : ∀ id row', yard'.jobs.get? id = some row' → 0 < row'.readySeq →
    (∃ row, yard.jobs.get? id = some row ∧ row.readySeq = row'.readySeq) ∨
      yard.readySeq < row'.readySeq

namespace DrawsAbove

theorem of_same (jobs : yard'.jobs = yard.jobs) (readySeq : yard'.readySeq = yard.readySeq) :
    DrawsAbove yard yard' where
  counter := readySeq.ge
  place := fun id row' hrow' _ => .inl ⟨row', by rwa [← jobs], rfl⟩

theorem trans (h : DrawsAbove yard yard') (h' : DrawsAbove yard' yard'') :
    DrawsAbove yard yard'' where
  counter := h.counter.trans h'.counter
  place := by
    intro id row'' hrow'' hpositive
    rcases h'.place id row'' hrow'' hpositive with ⟨row', hrow', hsame⟩ | hlater
    · rw [← hsame] at hpositive ⊢
      exact h.place id row' hrow' hpositive
    · exact .inr (h.counter.trans_lt hlater)

theorem micro (fences : Fences yard) (hstep : Micro policy yard yard') : DrawsAbove yard yard' := by
  cases hstep with
  | tenant | queue | heartbeat | note => exact of_same rfl rfl
  | admission batch valid =>
    refine ⟨valid.counter, fun id row' hrow' hpositive => ?_⟩
    rcases Batch.get?_apply_cases valid hrow' with ⟨hmem, _⟩ | ⟨_, hold⟩
    · rcases (valid.rows id row' hmem).readySeq with hzero | ⟨_, hlow, _⟩
      · omega
      · exact .inr hlow
    · exact .inl ⟨row', hold, rfl⟩
  | move move valid =>
    refine ⟨valid.readySeq_le, fun id row' hrow' hpositive => ?_⟩
    rcases Move.get?_apply_cases valid hrow' with ⟨rfl, rfl⟩ | ⟨_, hold⟩
    · exact .inr (valid.new_place fences hpositive)
    · exact .inl ⟨row', hold, rfl⟩

theorem micros (fences : Fences yard) (h : ReflTransGen (Micro policy) yard yard') :
    DrawsAbove yard yard' := by
  have hboth : Fences yard' ∧ DrawsAbove yard yard' :=
    preserved (motive := fun last => Fences last ∧ DrawsAbove yard last)
      (fun _ _ hlast hstep => ⟨hlast.1.micro _ _ hstep, hlast.2.trans (micro hlast.1 hstep)⟩)
      h ⟨fences, of_same rfl rfl⟩
  exact hboth.2

end DrawsAbove

end RailYard.Lifecycle
