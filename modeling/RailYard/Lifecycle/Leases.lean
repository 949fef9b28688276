import RailYard.Lifecycle.Evolution

/-! Attempts and the jobs they belong to. Attempts are numbered by the leases
of their job, a leased job has an open attempt under its current number, and,
in a yard whose failures spare leased jobs, nothing else is open. -/
namespace RailYard.Lifecycle
open Library Domain Store Relation

def leaseState : JobState → Option AttemptState
  | .scheduled => some .leased
  | .running => some .running
  | _ => none

theorem leaseState_of_unleased (h : state.leased = false) : leaseState state = none := by
  cases state <;> first | rfl | cases h

theorem exists_leaseState (h : state.leased = true) :
    ∃ expected, leaseState state = some expected ∧ expected.isOpen = true := by
  cases state <;> first | exact ⟨_, rfl, rfl⟩ | cases h

structure Fences (yard : Yard) : Prop where
  generation : ∀ id row, yard.jobs.get? id = some row →
    row.leaseGeneration = row.attemptNo ∧ 0 ≤ row.attemptNo
  attempt : ∀ id attemptNo attempt, yard.attempts.get? (id, attemptNo) = some attempt →
    ∃ row, yard.jobs.get? id = some row ∧ 0 < attemptNo ∧ attemptNo ≤ row.attemptNo ∧
      attempt.leaseGeneration = attemptNo
  current : ∀ id row expected, yard.jobs.get? id = some row →
    leaseState row.state = some expected →
    ∃ attempt, yard.attempts.get? (id, row.attemptNo) = some attempt ∧ attempt.state = expected
  counter : 0 ≤ yard.readySeq
  ready : ∀ id row, yard.jobs.get? id = some row → 0 ≤ row.readySeq ∧
    row.readySeq ≤ yard.readySeq ∧ (0 < row.readySeq → row.state = .pending)

theorem Fences.openAttempt (fences : Fences yard) {id : String}
    (hrow : yard.jobs.get? id = some row) (hleased : row.state.leased = true) :
    ∃ attempt, yard.attempts.get? (id, row.attemptNo) = some attempt ∧
      attempt.state.isOpen = true ∧ attempt.leaseGeneration = row.leaseGeneration := by
  obtain ⟨expected, hexpected, hopen⟩ := exists_leaseState hleased
  obtain ⟨attempt, hattempt, hstate⟩ := fences.current id row expected hrow hexpected
  obtain ⟨_, _, _, _, hgeneration⟩ := fences.attempt id row.attemptNo attempt hattempt
  exact ⟨attempt, hattempt, hstate ▸ hopen, hgeneration.trans (fences.generation id row hrow).1.symm⟩

def Tidy (yard : Yard) : Prop :=
  ∀ id attemptNo attempt, yard.attempts.get? (id, attemptNo) = some attempt →
    attempt.state.isOpen = true →
    ∃ row, yard.jobs.get? id = some row ∧ row.attemptNo = attemptNo ∧
      leaseState row.state = some attempt.state

theorem SameReceipt.refl (attempt : AttemptRow) : SameReceipt attempt attempt :=
  ⟨rfl, rfl, rfl, rfl⟩

theorem SameHolder.refl (attempt : AttemptRow) : SameHolder attempt attempt := ⟨rfl, rfl, rfl⟩

theorem edited_of_eq {attempts : Table (String × Int) AttemptRow} (h : attempts' = attempts) :
    ∀ key attempt', attempts'.get? key = some attempt' →
      ∃ attempt, attempts.get? key = some attempt ∧ SameHolder attempt attempt' := by
  intro key attempt' hget
  rw [h] at hget
  exact ⟨attempt', hget, .refl attempt'⟩

theorem edited_of_modify {attempts : Table (String × Int) AttemptRow}
    (h : attempts' = attempts.modify key edit)
    (keeps : ∀ attempt, SameHolder attempt (edit attempt)) :
    ∀ key' attempt', attempts'.get? key' = some attempt' →
      ∃ attempt, attempts.get? key' = some attempt ∧ SameHolder attempt attempt' := by
  intro key' attempt' hget
  rw [h, Table.get?_modify] at hget
  by_cases hkey : key' = key
  · rw [if_pos hkey, Option.map_eq_some_iff] at hget
    obtain ⟨attempt, hattempt, rfl⟩ := hget
    exact ⟨attempt, hkey ▸ hattempt, keeps attempt⟩
  · rw [if_neg hkey] at hget
    exact ⟨attempt', hget, .refl attempt'⟩

theorem Move.Kind.attempts_cases {move : Move} (kind : move.Kind policy yard)
    {attempt' : AttemptRow} (h : move.attempts.get? key = some attempt') :
    (∃ attempt, yard.attempts.get? key = some attempt ∧ SameHolder attempt attempt') ∨
      key = (move.id, move.next.attemptNo) ∧ move.next.attemptNo = move.row.attemptNo + 1 ∧
        attempt'.leaseGeneration = move.next.leaseGeneration ∧ policy.granting := by
  cases kind with
  | lease attempt _ _ _ hnumber _ _ hcurrent _ inserted granting =>
    rw [inserted, Table.get?_insert] at h
    by_cases hkey : key = (move.id, move.next.attemptNo)
    · rw [if_pos hkey, Option.some.injEq] at h
      cases hold : yard.attempts.get? (move.id, move.next.attemptNo) with
      | some found =>
        rw [hold, Option.getD_some] at h
        exact .inl ⟨found, hkey ▸ hold, h ▸ .refl found⟩
      | none =>
        rw [hold, Option.getD_none] at h
        exact .inr ⟨hkey, hnumber, h ▸ hcurrent, granting⟩
    · rw [if_neg hkey] at h
      exact .inl ⟨attempt', h, .refl attempt'⟩
  | start _ _ _ _ edited =>
    exact .inl (edited_of_modify edited (fun _ => ⟨rfl, rfl, rfl⟩) key attempt' h)
  | close edit _ _ _ _ keeps edited => exact .inl (edited_of_modify edited keeps key attempt' h)
  | ready _ _ _ _ kept => exact .inl (edited_of_eq kept key attempt' h)
  | override _ _ _ _ kept => exact .inl (edited_of_eq kept key attempt' h)
  | cascade _ _ _ _ _ kept => exact .inl (edited_of_eq kept key attempt' h)

theorem Move.Kind.attempts_ne {move : Move} (kind : move.Kind policy yard) {key : String × Int}
    (h : key.1 ≠ move.id) : move.attempts.get? key = yard.attempts.get? key := by
  have hkey : ∀ attemptNo, key ≠ (move.id, attemptNo) := fun _ heq => h (by rw [heq])
  cases kind with
  | lease _ _ _ _ _ _ _ _ _ inserted => rw [inserted, Table.get?_insert_ne _ _ (hkey _)]
  | start _ _ _ _ edited => rw [edited, Table.get?_modify_ne _ _ (hkey _)]
  | close _ _ _ _ _ _ edited => rw [edited, Table.get?_modify_ne _ _ (hkey _)]
  | ready _ _ _ _ kept => rw [kept]
  | override _ _ _ _ kept => rw [kept]
  | cascade _ _ _ _ _ kept => rw [kept]

theorem leased_of_unsuccessful {state : JobState} (h : state.unsuccessful = true) :
    state.leased = false := by
  cases state <;> first | rfl | cases h

theorem Move.Kind.lease_or_same {move : Move} (kind : move.Kind policy yard) :
    (move.next.attemptNo = move.row.attemptNo + 1 ∧
      move.next.leaseGeneration = move.row.leaseGeneration + 1 ∧ policy.granting ∧
      (move.attempts.get? (move.id, move.next.attemptNo)).isSome) ∨
    SameLease move.row move.next := by
  cases kind with
  | lease _ _ _ _ hnumber hgeneration _ _ _ inserted granting =>
    refine .inl ⟨hnumber, hgeneration, granting, ?_⟩
    rw [inserted, Table.get?_insert, if_pos rfl]
    rfl
  | start _ _ _ same => exact .inr same
  | close _ _ _ same => exact .inr same
  | ready _ _ _ same => exact .inr same
  | override _ _ _ same => exact .inr same
  | cascade _ _ _ _ same => exact .inr same

theorem Move.Kind.leased_cases {move : Move} (kind : move.Kind policy yard)
    (h : move.next.state.leased = true) :
    (policy.granting ∧ move.next.attemptNo = move.row.attemptNo + 1) ∨
      move.row.state.leased = true ∧ move.next.attemptNo = move.row.attemptNo := by
  cases kind with
  | lease _ _ _ _ hnumber _ _ _ _ _ granting => exact .inl ⟨granting, hnumber⟩
  | start _ scheduled _ same => exact .inr ⟨by rw [scheduled]; rfl, same.attemptNo⟩
  | close _ leased _ same => exact .inr ⟨leased, same.attemptNo⟩
  | ready _ pending => rw [pending] at h; cases h
  | override _ target =>
    rcases target with target | target
    · rw [target] at h; cases h
    · rw [leased_of_unsuccessful target] at h; cases h
  | cascade _ _ dead => rw [dead] at h; cases h

/-- A job that holds a lease after a move has just got it, has just started it,
and in both cases under its current number. -/
theorem Move.Kind.current {move : Move} (kind : move.Kind policy yard) (fences : Fences yard)
    (found : yard.jobs.get? move.id = some move.row) {expected : AttemptState}
    (h : leaseState move.next.state = some expected) :
    ∃ attempt, move.attempts.get? (move.id, move.next.attemptNo) = some attempt ∧
      attempt.state = expected := by
  have hunleased : move.next.state.leased = false → False := by
    intro hnext
    rw [leaseState_of_unleased hnext] at h
    cases h
  cases kind with
  | lease attempt _ _ scheduled hnumber _ leased _ _ inserted =>
    refine ⟨attempt, ?_, ?_⟩
    · rw [inserted]
      apply Table.get?_insert_self
      cases hold : yard.attempts.get? (move.id, move.next.attemptNo) with
      | none => rfl
      | some old =>
        obtain ⟨row, hrow, _, hle, _⟩ := fences.attempt _ _ _ hold
        rw [found, Option.some.injEq] at hrow
        rw [← hrow] at hle
        omega
    · rw [scheduled] at h
      cases h
      exact leased
  | start startedAt scheduled running same edited =>
    obtain ⟨attempt, hattempt, _⟩ :=
      fences.current move.id move.row .leased found (by rw [scheduled]; rfl)
    rw [running] at h
    cases h
    refine ⟨{ attempt with state := .running, startedAt := some startedAt }, ?_, rfl⟩
    rw [edited, same.attemptNo, Table.get?_modify_self, hattempt]
    rfl
  | close _ _ released => exact (hunleased released).elim
  | ready _ pending => exact (hunleased (by rw [pending]; rfl)).elim
  | override _ target =>
    refine (hunleased ?_).elim
    rcases target with target | target
    · rw [target]
      rfl
    · exact leased_of_unsuccessful target
  | cascade _ _ dead => exact (hunleased (by rw [dead]; rfl)).elim

theorem Move.Valid.readySeq_le {move : Move} (valid : move.Valid policy yard) :
    yard.readySeq ≤ (move.apply yard).readySeq := by
  change yard.readySeq ≤ move.readySeq
  cases valid.readiness with
  | drawn _ _ counter => omega
  | kept _ _ _ counter => omega
  | dropped _ _ counter => omega

theorem Fences.move {move : Move} (h : Fences yard) (valid : move.Valid policy yard) :
    Fences (move.apply yard) where
  generation := by
    intro id row hrow
    rcases Move.get?_apply_cases valid hrow with ⟨rfl, rfl⟩ | ⟨_, hold⟩
    · obtain ⟨hgeneration, hnonneg⟩ := h.generation move.id move.row valid.found
      rcases valid.kind.lease_or_same with ⟨hnumber, hnext, _⟩ | same
      · rw [hnumber, hnext]
        exact ⟨by omega, by omega⟩
      · rw [same.attemptNo, same.leaseGeneration]
        exact ⟨hgeneration, hnonneg⟩
    · exact h.generation id row hold
  attempt := by
    intro id attemptNo attempt' hattempt'
    rcases valid.kind.attempts_cases hattempt' with
      ⟨attempt, hattempt, hholder⟩ | ⟨hkey, hnumber, hcurrent, _⟩
    · obtain ⟨row, hrow, hpositive, hle, hgeneration⟩ := h.attempt id attemptNo attempt hattempt
      obtain ⟨row', hrow', hlater⟩ := valid.evolves.jobs id row hrow
      exact ⟨row', hrow', hpositive, hle.trans hlater.attemptNo,
        hholder.leaseGeneration.trans hgeneration⟩
    · obtain ⟨rfl, rfl⟩ := Prod.mk.inj hkey
      obtain ⟨hgeneration, hnonneg⟩ := h.generation move.id move.row valid.found
      refine ⟨move.next, Move.get?_apply_self valid, by omega, le_refl _, ?_⟩
      rcases valid.kind.lease_or_same with ⟨_, hnext, _⟩ | same
      · omega
      · have hsame := same.attemptNo
        omega
  current := by
    intro id row expected hrow hexpected
    rcases Move.get?_apply_cases valid hrow with ⟨rfl, rfl⟩ | ⟨hne, hold⟩
    · exact valid.kind.current h valid.found hexpected
    · obtain ⟨attempt, hattempt, hstate⟩ := h.current id row expected hold hexpected
      exact ⟨attempt, (valid.kind.attempts_ne hne).trans hattempt, hstate⟩
  counter := h.counter.trans valid.readySeq_le
  ready := by
    intro id row hrow
    rcases Move.get?_apply_cases valid hrow with ⟨rfl, rfl⟩ | ⟨_, hold⟩
    · obtain ⟨hnonneg, hle, hpending⟩ := h.ready move.id move.row valid.found
      change _ ∧ move.next.readySeq ≤ move.readySeq ∧ _
      cases valid.readiness with
      | drawn pending seq counter => exact ⟨by omega, by omega, fun _ => pending⟩
      | kept busy _ seq counter =>
        -- A job that is not pending has no place to keep.
        have hzero : move.row.readySeq = 0 := by
          by_contra hne
          exact busy (hpending (by omega))
        exact ⟨by omega, by omega, fun hpositive => by omega⟩
      | dropped _ seq counter => exact ⟨by omega, by omega, fun hpositive => by omega⟩
    · obtain ⟨hnonneg, hle, hpending⟩ := h.ready id row hold
      exact ⟨hnonneg, hle.trans valid.readySeq_le, hpending⟩

theorem Fences.of_same (h : Fences yard) (jobs : yard'.jobs = yard.jobs)
    (attempts : yard'.attempts = yard.attempts) (readySeq : yard'.readySeq = yard.readySeq) :
    Fences yard' := by
  obtain ⟨hgeneration, hattempt, hcurrent, hcounter, hready⟩ := h
  exact ⟨by rwa [jobs], by rwa [jobs, attempts], by rwa [jobs, attempts], by rwa [readySeq],
    by rwa [jobs, readySeq]⟩

theorem Fences.admission {batch : Batch} (h : Fences yard) (valid : batch.Valid yard) :
    Fences (batch.apply yard) where
  generation := by
    intro id row hrow
    rcases Batch.get?_apply_cases valid hrow with ⟨hmem, _⟩ | ⟨_, hold⟩
    · have hnew := valid.rows id row hmem
      rw [hnew.attemptNo, hnew.leaseGeneration]
      exact ⟨rfl, le_refl _⟩
    · exact h.generation id row hold
  attempt := by
    intro id attemptNo attempt hattempt
    obtain ⟨row, hrow, hrest⟩ := h.attempt id attemptNo attempt hattempt
    exact ⟨row, Batch.get?_apply_old batch hrow, hrest⟩
  current := by
    intro id row expected hrow hexpected
    rcases Batch.get?_apply_cases valid hrow with ⟨hmem, _⟩ | ⟨_, hold⟩
    · rcases (valid.rows id row hmem).state with hstate | hstate <;>
        rw [hstate] at hexpected <;> cases hexpected
    · exact h.current id row expected hold hexpected
  counter := h.counter.trans valid.counter
  ready := by
    intro id row hrow
    change _ ∧ row.readySeq ≤ batch.readySeq ∧ _
    have hgrown := valid.counter
    have hcounter := h.counter
    rcases Batch.get?_apply_cases valid hrow with ⟨hmem, _⟩ | ⟨_, hold⟩
    · rcases (valid.rows id row hmem).readySeq with hzero | ⟨hpending, hlow, hhigh⟩
      · exact ⟨by omega, by omega, fun hpositive => by omega⟩
      · exact ⟨by omega, hhigh, fun _ => hpending⟩
    · obtain ⟨hnonneg, hle, hpending⟩ := h.ready id row hold
      exact ⟨hnonneg, hle.trans hgrown, hpending⟩

theorem Fences.heartbeat {key : String × Int} (h : Fences yard)
    (keeps : ∀ attempt, SameHolder attempt (edit attempt))
    (hstate : ∀ attempt, (edit attempt).state = attempt.state) :
    Fences { yard with attempts := yard.attempts.modify key edit } where
  generation := h.generation
  attempt := by
    intro id attemptNo attempt' hattempt'
    obtain ⟨attempt, hattempt, hholder⟩ := edited_of_modify rfl keeps _ _ hattempt'
    obtain ⟨row, hrow, hpositive, hle, hgeneration⟩ := h.attempt id attemptNo attempt hattempt
    exact ⟨row, hrow, hpositive, hle, hholder.leaseGeneration.trans hgeneration⟩
  current := by
    intro id row expected hrow hexpected
    obtain ⟨attempt, hattempt, hattemptState⟩ := h.current id row expected hrow hexpected
    dsimp only
    rw [Table.get?_modify]
    by_cases hkey : (id, row.attemptNo) = key
    · rw [if_pos hkey, ← hkey, hattempt]
      exact ⟨edit attempt, rfl, (hstate attempt).trans hattemptState⟩
    · rw [if_neg hkey]
      exact ⟨attempt, hattempt, hattemptState⟩
  counter := h.counter
  ready := h.ready

theorem Fences.micro (yard yard' : Yard) (h : Fences yard) (hstep : Micro policy yard yard') :
    Fences yard' := by
  cases hstep with
  | tenant => exact h.of_same rfl rfl rfl
  | queue => exact h.of_same rfl rfl rfl
  | admission batch valid => exact h.admission valid
  | heartbeat key edit keeps state => exact h.heartbeat keeps state
  | note => exact h.of_same rfl rfl rfl
  | move move valid => exact h.move valid

theorem Micro.leased_cases (h : Micro policy yard yard') {id : String} {row : JobRow}
    (hrow : yard'.jobs.get? id = some row) (hleased : row.state.leased = true) :
    ∃ before, yard.jobs.get? id = some before ∧
      ((policy.granting ∧ row.attemptNo = before.attemptNo + 1) ∨
        before.state.leased = true ∧ row.attemptNo = before.attemptNo) := by
  cases h with
  | tenant | queue | heartbeat | note => exact ⟨row, hrow, .inr ⟨hleased, rfl⟩⟩
  | admission batch valid =>
    rcases Batch.get?_apply_cases valid hrow with ⟨hmem, _⟩ | ⟨_, hold⟩
    · rcases (valid.rows id row hmem).state with hstate | hstate <;> rw [hstate] at hleased <;>
        cases hleased
    · exact ⟨row, hold, .inr ⟨hleased, rfl⟩⟩
  | move move valid =>
    rcases Move.get?_apply_cases valid hrow with ⟨rfl, rfl⟩ | ⟨_, hold⟩
    · exact ⟨move.row, valid.found, valid.kind.leased_cases hleased⟩
    · exact ⟨row, hold, .inr ⟨hleased, rfl⟩⟩

theorem leased_of_micros (quiet : ¬policy.granting) (h : ReflTransGen (Micro policy) yard yard')
    {id : String} (hrow : yard'.jobs.get? id = some row) (hleased : row.state.leased = true) :
    ∃ before, yard.jobs.get? id = some before ∧ before.state.leased = true := by
  induction h generalizing row with
  | refl => exact ⟨row, hrow, hleased⟩
  | tail _ hlast ih =>
    obtain ⟨middle, hmiddle, hgranted | hheld⟩ := hlast.leased_cases hrow hleased
    · exact (quiet hgranted.1).elim
    · exact ih hmiddle hheld.1

/-- The job runs under its attempt `attemptNo`. -/
def Yard.Holds (yard : Yard) (id : String) (attemptNo : Int) : Prop :=
  ∃ row, yard.jobs.get? id = some row ∧ row.state.leased = true ∧ row.attemptNo = attemptNo

theorem holds_of_micros (h : ReflTransGen (Micro policy) yard yard') {id : String}
    (hgranted : ∃ row, yard.jobs.get? id = some row ∧ attemptNo ≤ row.attemptNo)
    (hholds : yard'.Holds id attemptNo) : yard.Holds id attemptNo := by
  induction h with
  | refl => exact hholds
  | tail hpath hlast ih =>
    obtain ⟨row', hrow', hleased, rfl⟩ := hholds
    obtain ⟨middle, hmiddle, hcases⟩ := hlast.leased_cases hrow' hleased
    obtain ⟨row, hrow, hle⟩ := hgranted
    obtain ⟨found, hfound, hlater⟩ := (evolves_of_micros hpath).jobs id row hrow
    rw [hmiddle, Option.some.injEq] at hfound
    subst hfound
    have hmonotone := hlater.attemptNo
    rcases hcases with ⟨_, hnext⟩ | ⟨hheld, hsame⟩
    · omega
    · exact ih ⟨middle, hmiddle, hheld, hsame.symm⟩

theorem Micro.holder_of_quiet (quiet : ¬policy.granting) (h : Micro policy yard yard')
    (hget : yard'.attempts.get? key = some attempt') :
    ∃ attempt, yard.attempts.get? key = some attempt ∧ SameHolder attempt attempt' := by
  cases h with
  | tenant | queue | admission | note => exact ⟨attempt', hget, .refl attempt'⟩
  | heartbeat _ edit keeps _ => exact edited_of_modify rfl keeps key attempt' hget
  | move move valid =>
    rcases valid.kind.attempts_cases hget with hedited | ⟨_, _, _, granting⟩
    · exact hedited
    · exact (quiet granting).elim

theorem Tidy.move_self {move : Move} (h : Tidy yard) (valid : move.Valid policy yard)
    (tidy : policy.tidy) {attempt' : AttemptRow}
    (hattempt : move.attempts.get? (move.id, attemptNo) = some attempt')
    (hopen : attempt'.state.isOpen = true) :
    move.next.attemptNo = attemptNo ∧ leaseState move.next.state = some attempt'.state := by
  -- An attempt that was open before belongs to the lease before.
  have hbefore : ∀ attempt, yard.attempts.get? (move.id, attemptNo) = some attempt →
      attempt.state.isOpen = true →
      move.row.attemptNo = attemptNo ∧ move.row.state.leased = true := by
    intro attempt hold hstate
    obtain ⟨row, hrow, hnumber, hlease⟩ := h move.id attemptNo attempt hold hstate
    rw [valid.found, Option.some.injEq] at hrow
    rw [← hrow] at hnumber hlease
    refine ⟨hnumber, ?_⟩
    cases hleased : move.row.state.leased with
    | true => rfl
    | false =>
      rw [leaseState_of_unleased hleased] at hlease
      cases hlease
  have hidle : move.attempts = yard.attempts → move.row.state.leased = false → False := by
    intro hkept hunleased
    rw [hkept] at hattempt
    have hleased := (hbefore attempt' hattempt hopen).2
    rw [hunleased] at hleased
    cases hleased
  -- An attempt under another number than the current one was closed and stays so.
  have hother : ∀ edit, move.attempts = yard.attempts.modify (move.id, move.row.attemptNo) edit →
      ∃ attempt, attemptNo = move.row.attemptNo ∧ attempt' = edit attempt := by
    intro edit hedited
    rw [hedited, Table.get?_modify] at hattempt
    by_cases hnumber : attemptNo = move.row.attemptNo
    · rw [if_pos (by rw [hnumber]), Option.map_eq_some_iff] at hattempt
      obtain ⟨attempt, _, heq⟩ := hattempt
      exact ⟨attempt, hnumber, heq.symm⟩
    · rw [if_neg fun heq => hnumber (Prod.mk.inj heq).2] at hattempt
      exact (hnumber (hbefore attempt' hattempt hopen).1.symm).elim
  cases valid.kind with
  | lease attempt pending _ scheduled _ _ leased _ _ inserted =>
    rw [inserted, Table.get?_insert] at hattempt
    have hclosed : ∀ old, yard.attempts.get? (move.id, attemptNo) = some old →
        old.state.isOpen = true → False := by
      intro old hold hstate
      have hleased := (hbefore old hold hstate).2
      rw [pending] at hleased
      cases hleased
    by_cases hkey : (move.id, attemptNo) = (move.id, move.next.attemptNo)
    · rw [if_pos hkey, Option.some.injEq, ← hkey] at hattempt
      cases hold : yard.attempts.get? (move.id, attemptNo) with
      | none =>
        rw [hold, Option.getD_none] at hattempt
        rw [scheduled, ← hattempt, leased]
        exact ⟨(Prod.mk.inj hkey).2.symm, rfl⟩
      | some old =>
        rw [hold, Option.getD_some] at hattempt
        exact (hclosed old hold (hattempt ▸ hopen)).elim
    · rw [if_neg hkey] at hattempt
      exact (hclosed attempt' hattempt hopen).elim
  | start startedAt _ running same edited =>
    obtain ⟨attempt, rfl, rfl⟩ := hother _ edited
    rw [running]
    exact ⟨same.attemptNo, rfl⟩
  | close edit _ _ _ closes _ edited =>
    obtain ⟨attempt, _, rfl⟩ := hother edit edited
    rw [closes attempt] at hopen
    cases hopen
  | ready idle _ _ _ kept =>
    exact (hidle kept (by rcases idle with idle | idle <;> rw [idle] <;> rfl)).elim
  | override idle _ _ _ kept => exact (hidle kept idle).elim
  | cascade _ _ _ spared _ kept => exact (hidle kept (spared tidy)).elim

theorem Tidy.micro (tidy : policy.tidy) (yard yard' : Yard) (h : Tidy yard)
    (hstep : Micro policy yard yard') : Tidy yard' := by
  cases hstep with
  | tenant => exact h
  | queue => exact h
  | admission batch valid =>
    intro id attemptNo attempt hattempt hopen
    obtain ⟨row, hrow, hrest⟩ := h id attemptNo attempt hattempt hopen
    exact ⟨row, Batch.get?_apply_old batch hrow, hrest⟩
  | heartbeat key edit keeps state =>
    intro id attemptNo attempt' hattempt' hopen
    dsimp only at hattempt' ⊢
    rw [Table.get?_modify] at hattempt'
    by_cases hkey : (id, attemptNo) = key
    · rw [if_pos hkey, ← hkey, Option.map_eq_some_iff] at hattempt'
      obtain ⟨attempt, hattempt, rfl⟩ := hattempt'
      rw [state attempt] at hopen ⊢
      exact h id attemptNo attempt hattempt hopen
    · rw [if_neg hkey] at hattempt'
      exact h id attemptNo attempt' hattempt' hopen
  | note => exact h
  | move move valid =>
    intro id attemptNo attempt hattempt hopen
    by_cases hid : id = move.id
    · subst hid
      exact ⟨move.next, Move.get?_apply_self valid, h.move_self valid tidy hattempt hopen⟩
    · have hold : yard.attempts.get? (id, attemptNo) = some attempt :=
        (valid.kind.attempts_ne hid).symm.trans hattempt
      obtain ⟨row, hrow, hrest⟩ := h id attemptNo attempt hold hopen
      exact ⟨row, (Move.get?_apply_ne move hid).trans hrow, hrest⟩

end RailYard.Lifecycle
