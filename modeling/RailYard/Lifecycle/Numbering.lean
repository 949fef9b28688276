import RailYard.Lifecycle.Leases

/-! How the attempts of a job are numbered: only a lease draws a number, and
every number that was drawn has its row. -/
namespace RailYard.Lifecycle
open Library Store Relation

variable {yard yard' : Yard}

def Yard.issued (yard : Yard) (id : String) : Int :=
  ((yard.jobs.get? id).map JobRow.attemptNo).getD 0

def Consecutive (yard : Yard) : Prop :=
  ∀ id number, 0 < number → number ≤ yard.issued id → (yard.attempts.get? (id, number)).isSome

theorem Yard.issued_of_get? {id : String} (h : yard.jobs.get? id = some row) :
    yard.issued id = row.attemptNo := by
  unfold issued
  rw [h]
  rfl

theorem Yard.issued_apply {move : Move} (valid : move.Valid policy yard) :
    (move.apply yard).issued = Function.update yard.issued move.id move.next.attemptNo := by
  funext id
  by_cases hid : id = move.id
  · rw [hid, Function.update_self, issued_of_get? (Move.get?_apply_self valid)]
  · rw [Function.update_of_ne hid]
    unfold issued
    rw [Move.get?_apply_ne move hid]

theorem Yard.issued_admission {batch : Batch} (valid : batch.Valid yard) :
    (batch.apply yard).issued = yard.issued := by
  funext id
  cases hrow : (batch.apply yard).jobs.get? id with
  | none =>
    have hnone : yard.jobs.get? id = none := by
      refine Option.eq_none_iff_forall_ne_some.mpr fun row hold => ?_
      obtain ⟨row', hrow', _⟩ := valid.evolves.jobs id row hold
      rw [hrow] at hrow'
      cases hrow'
    unfold issued
    rw [hrow, hnone]
  | some row =>
    rw [issued_of_get? hrow]
    rcases Batch.get?_apply_cases valid hrow with ⟨hmem, hnone⟩ | ⟨_, hold⟩
    · unfold issued
      rw [(valid.rows id row hmem).attemptNo, hnone]
      rfl
    · rw [issued_of_get? hold]

theorem Micro.issued_of_quiet (quiet : ¬policy.granting) (h : Micro policy yard yard') :
    yard'.issued = yard.issued := by
  cases h with
  | tenant | queue | heartbeat | note => rfl
  | admission batch valid => exact Yard.issued_admission valid
  | move move valid =>
    rcases valid.kind.lease_or_same with ⟨_, _, granting, _⟩ | same
    · exact (quiet granting).elim
    · rw [Yard.issued_apply valid, same.attemptNo, ← Yard.issued_of_get? valid.found,
        Function.update_eq_self]

theorem issued_of_micros (quiet : ¬policy.granting) (h : ReflTransGen (Micro policy) yard yard') :
    yard'.issued = yard.issued :=
  preserved (motive := fun later => later.issued = yard.issued)
    (fun _ _ hsame hmicro => (hmicro.issued_of_quiet quiet).trans hsame) h rfl

theorem isSome_modify {attempts : Table (String × Int) AttemptRow} (h : (attempts.get? key').isSome)
    :
    ((attempts.modify key edit).get? key').isSome := by
  rw [Table.get?_modify]
  split
  · rename_i hkey
    rwa [Option.isSome_map, ← hkey]
  · exact h

theorem Move.Kind.attempts_kept {move : Move} (kind : move.Kind policy yard)
    (h : (yard.attempts.get? key).isSome) :
    (move.attempts.get? key).isSome := by
  cases kind with
  | lease _ _ _ _ _ _ _ _ _ inserted =>
    obtain ⟨attempt, hattempt⟩ := Option.isSome_iff_exists.mp h
    rw [inserted, Table.get?_insert_of_get? _ _ _ hattempt]
    rfl
  | start _ _ _ _ edited => exact edited ▸ isSome_modify h
  | close _ _ _ _ _ _ edited => exact edited ▸ isSome_modify h
  | ready _ _ _ _ kept => exact kept ▸ h
  | override _ _ _ _ kept => exact kept ▸ h
  | cascade _ _ _ _ _ kept => exact kept ▸ h

theorem Consecutive.move {move : Move} (h : Consecutive yard) (valid : move.Valid policy yard) :
    Consecutive (move.apply yard) := by
  intro id number hpositive hle
  change (move.attempts.get? (id, number)).isSome
  rw [Yard.issued_apply valid] at hle
  by_cases hid : id = move.id
  · subst hid
    rw [Function.update_self] at hle
    have hissued := Yard.issued_of_get? valid.found
    rcases valid.kind.lease_or_same with ⟨hnext, _, _, hdrawn⟩ | same
    · by_cases hlast : number = move.next.attemptNo
      · rwa [hlast]
      · exact valid.kind.attempts_kept (h move.id number hpositive (by omega))
    · rw [same.attemptNo, ← hissued] at hle
      exact valid.kind.attempts_kept (h move.id number hpositive hle)
  · rw [Function.update_of_ne hid] at hle
    exact valid.kind.attempts_kept (h id number hpositive hle)

theorem Consecutive.micro (yard yard' : Yard) (h : Consecutive yard)
    (hmicro : Micro policy yard yard') : Consecutive yard' := by
  cases hmicro with
  | tenant | queue | note => exact h
  | admission batch valid =>
    intro id number hpositive hle
    rw [Yard.issued_admission valid] at hle
    exact h id number hpositive hle
  | heartbeat => exact fun id number hpositive hle => isSome_modify (h id number hpositive hle)
  | move move valid => exact h.move valid

theorem Consecutive.micros (h : Consecutive yard)
    (hmicros : ReflTransGen (Micro policy) yard yard') : Consecutive yard' :=
  preserved Consecutive.micro hmicros h

end RailYard.Lifecycle
