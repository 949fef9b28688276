import RailYard.Lifecycle.Leases

/-! Receipts of completed attempts. Only a closed attempt has one, and since
every later move finds its own lease open, no receipt is ever changed. -/
namespace RailYard.Lifecycle
open Library Domain Store Relation

def Receipted (yard : Yard) : Prop :=
  ∀ key attempt, yard.attempts.get? key = some attempt → attempt.completionRequestDigest.isSome →
    attempt.state.isOpen = false

def KeepsReceipts (yard yard' : Yard) : Prop :=
  ∀ key attempt, yard.attempts.get? key = some attempt → attempt.completionRequestDigest.isSome →
    ∃ attempt', yard'.attempts.get? key = some attempt' ∧ SameHolder attempt attempt' ∧
      SameReceipt attempt attempt'

theorem SameReceipt.trans {second : AttemptRow} (h : SameReceipt first second)
    (h' : SameReceipt second third) : SameReceipt first third :=
  ⟨h'.digest.trans h.digest, h'.state.trans h.state, h'.stateVersion.trans h.stateVersion,
    h'.committedAt.trans h.committedAt⟩

theorem SameHolder.trans {second : AttemptRow} (h : SameHolder first second)
    (h' : SameHolder second third) : SameHolder first third :=
  ⟨h'.workerID.trans h.workerID, h'.leaseGeneration.trans h.leaseGeneration,
    h'.tokenHash.trans h.tokenHash⟩

theorem KeepsReceipts.of_same (h : yard'.attempts = yard.attempts) : KeepsReceipts yard yard' := by
  intro key attempt hattempt _
  rw [← h] at hattempt
  exact ⟨attempt, hattempt, .refl attempt, .refl attempt⟩

theorem KeepsReceipts.trans (h : KeepsReceipts yard yard') (h' : KeepsReceipts yard' yard'') :
    KeepsReceipts yard yard'' := by
  intro key attempt hattempt hanswered
  obtain ⟨between, hbetween, hholder, hreceipt⟩ := h key attempt hattempt hanswered
  rw [← hreceipt.digest] at hanswered
  obtain ⟨last, hlast, hholder', hreceipt'⟩ := h' key between hbetween hanswered
  exact ⟨last, hlast, hholder.trans hholder', hreceipt.trans hreceipt'⟩

theorem Move.Valid.closed_kept {move : Move} (valid : move.Valid policy yard) (fences : Fences yard)
    {attempt : AttemptRow} (hattempt : yard.attempts.get? key = some attempt)
    (hclosed : attempt.state.isOpen = false) :
    move.attempts.get? key = some attempt := by
  have hedited : ∀ edit, move.row.state.leased = true →
      (yard.attempts.modify (move.id, move.row.attemptNo) edit).get? key = some attempt := by
    intro edit hleased
    rw [Table.get?_modify_ne, hattempt]
    rintro rfl
    obtain ⟨found, hfound, hopen, _⟩ := fences.openAttempt valid.found hleased
    rw [hattempt, Option.some.injEq] at hfound
    rw [← hfound, hclosed] at hopen
    cases hopen
  cases valid.kind with
  | lease _ _ _ _ _ _ _ _ _ inserted =>
    rw [inserted]
    exact Table.get?_insert_of_get? _ _ _ hattempt
  | start _ scheduled _ _ edited =>
    rw [edited]
    exact hedited _ (by rw [scheduled]; rfl)
  | close _ leased _ _ _ _ edited =>
    rw [edited]
    exact hedited _ leased
  | ready _ _ _ _ kept => rw [kept, hattempt]
  | override _ _ _ _ kept => rw [kept, hattempt]
  | cascade _ _ _ _ _ kept => rw [kept, hattempt]

theorem Receipted.move {move : Move} (h : Receipted yard) (fences : Fences yard)
    (valid : move.Valid policy yard) : Receipted (move.apply yard) := by
  intro key attempt' hattempt' hanswered
  change move.attempts.get? key = some attempt' at hattempt'
  have hmodified : ∀ edit, move.attempts =
      yard.attempts.modify (move.id, move.row.attemptNo) edit → attempt'.state.isOpen = false ∨
        key = (move.id, move.row.attemptNo) ∧ ∃ attempt, yard.attempts.get? key = some attempt ∧
          edit attempt = attempt' := by
    intro edit hedit
    rw [hedit, Table.get?_modify] at hattempt'
    by_cases hkey : key = (move.id, move.row.attemptNo)
    · rw [if_pos hkey, Option.map_eq_some_iff] at hattempt'
      exact .inr ⟨hkey, hkey ▸ hattempt'⟩
    · rw [if_neg hkey] at hattempt'
      exact .inl (h key attempt' hattempt' hanswered)
  cases valid.kind with
  | lease attempt _ _ _ _ _ _ _ _ inserted _ unanswered =>
    cases hold : yard.attempts.get? key with
    | some old =>
      rw [inserted, Table.get?_insert_of_get? _ _ _ hold, Option.some.injEq] at hattempt'
      exact hattempt' ▸ h key old hold (hattempt' ▸ hanswered)
    | none =>
      rw [inserted, Table.get?_insert] at hattempt'
      split at hattempt'
      · rename_i hkey
        rw [← hkey, hold, Option.getD_none, Option.some.injEq] at hattempt'
        rw [← hattempt', unanswered] at hanswered
        cases hanswered
      · rw [hold] at hattempt'
        cases hattempt'
  | start startedAt scheduled _ _ edited =>
    -- The attempt was open before it was started, so it had no receipt.
    rcases hmodified _ edited with hclosed | ⟨rfl, attempt, hattempt, rfl⟩
    · exact hclosed
    · obtain ⟨found, hfound, hopen, _⟩ := fences.openAttempt valid.found (by rw [scheduled]; rfl)
      rw [hattempt, Option.some.injEq] at hfound
      rw [← hfound, h _ attempt hattempt hanswered] at hopen
      cases hopen
  | close edit _ _ _ closes _ edited =>
    rcases hmodified _ edited with hclosed | ⟨_, attempt, _, rfl⟩
    · exact hclosed
    · exact closes attempt
  | ready _ _ _ _ kept => exact h key attempt' (kept ▸ hattempt') hanswered
  | override _ _ _ _ kept => exact h key attempt' (kept ▸ hattempt') hanswered
  | cascade _ _ _ _ _ kept => exact h key attempt' (kept ▸ hattempt') hanswered

theorem Receipted.heartbeat {key : String × Int} (h : Receipted yard)
    (state : ∀ attempt, (edit attempt).state = attempt.state)
    (receipt : ∀ attempt, SameReceipt attempt (edit attempt)) :
    Receipted { yard with attempts := yard.attempts.modify key edit } := by
  intro key' attempt' hattempt' hanswered
  rw [Table.get?_modify] at hattempt'
  split at hattempt'
  · obtain ⟨attempt, hattempt, rfl⟩ := Option.map_eq_some_iff.mp hattempt'
    rw [(receipt attempt).digest] at hanswered
    rw [state attempt]
    exact h key attempt hattempt hanswered
  · exact h key' attempt' hattempt' hanswered

theorem Receipted.micro (h : Receipted yard) (fences : Fences yard)
    (hmicro : Micro policy yard yard') : Receipted yard' := by
  cases hmicro with
  | tenant | queue | admission | note => exact h
  | heartbeat key edit _ state receipt => exact h.heartbeat state receipt
  | move move valid => exact h.move fences valid

theorem KeepsReceipts.micro (receipted : Receipted yard) (fences : Fences yard)
    (hmicro : Micro policy yard yard') : KeepsReceipts yard yard' := by
  cases hmicro with
  | tenant | queue | admission | note => exact .of_same rfl
  | heartbeat key edit keeps _ receipt =>
    intro key' attempt hattempt _
    by_cases hkey : key' = key
    · refine ⟨edit attempt, ?_, keeps attempt, receipt attempt⟩
      rw [hkey, Table.get?_modify_self, ← hkey, hattempt]
      rfl
    · exact ⟨attempt, (Table.get?_modify_ne _ _ hkey).trans hattempt, .refl attempt, .refl attempt⟩
  | move move valid =>
    intro key attempt hattempt hanswered
    exact ⟨attempt, valid.closed_kept fences hattempt (receipted key attempt hattempt hanswered),
      .refl attempt, .refl attempt⟩

theorem KeepsReceipts.micros (receipted : Receipted yard) (fences : Fences yard)
    (hmicros : ReflTransGen (Micro policy) yard yard') :
    Receipted yard' ∧ KeepsReceipts yard yard' := by
  have hall : Receipted yard' ∧ Fences yard' ∧ KeepsReceipts yard yard' :=
    preserved (motive := fun later => Receipted later ∧ Fences later ∧ KeepsReceipts yard later)
      (fun _ _ ⟨hreceipted, hfences, hkeeps⟩ hmicro =>
        ⟨hreceipted.micro hfences hmicro, hfences.micro _ _ hmicro,
          hkeeps.trans (.micro hreceipted hfences hmicro)⟩)
      hmicros ⟨receipted, fences, .of_same rfl⟩
  exact ⟨hall.1, hall.2.2⟩

end RailYard.Lifecycle
