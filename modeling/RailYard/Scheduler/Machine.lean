import RailYard.Domain.Time
import RailYard.Scheduler.Turns

/-! The scheduler on machine integers. Paying a quantum into a deficit is the one
addition that can leave the 64-bit range; as long as it does not, the loop is that
over unbounded integers. -/
namespace RailYard.Scheduler.Machine
open Library.RoundRobin Domain

/-- `queue.Deficit += quantum` wraps around. -/
def visit (batchLimit : Int) (round : Round) : Except Error Round :=
  match round.queues[round.cursor]? with
  | none => .ok round
  | some queue =>
    let cursor := (round.cursor + 1) % round.queues.length
    if queue.candidates.isEmpty then
      .ok { round with
        cursor := cursor
        visitedWithoutGrant := round.visitedWithoutGrant + 1 }
    else
      match serve batchLimit (int64 (queue.deficit + queue.quantum)) round.remaining round.grants
          false queue.candidates with
      | .error error => .error error
      | .ok turn => .ok {
          queues := round.queues.set round.cursor
            { queue with candidates := turn.candidates, deficit := turn.deficit }
          cursor := cursor
          remaining := turn.remaining
          grants := turn.grants
          visitedWithoutGrant := if turn.granted then 0 else round.visitedWithoutGrant + 1 }

def rounds (batchLimit : Int) : Nat → Round → Except Error Round
  | 0, round => .ok round
  | fuel + 1, round =>
    if round.continues batchLimit then
      match visit batchLimit round with
      | .ok next => rounds batchLimit fuel next
      | .error error => .error error
    else .ok round

def visits (batchLimit : Int) : Nat → Round → List Round
  | 0, _ => []
  | fuel + 1, round =>
    if round.continues batchLimit then
      match visit batchLimit round with
      | .ok next => round :: visits batchLimit fuel next
      | .error _ => []
    else []

def visitsOf (input : Snapshot) : List Round :=
  visits input.batchLimit (turnBound input.batchLimit (cloneAndSort input.queues)) input.start

def decide (input : Snapshot) : Except Error Decision :=
  if input.workerSlots < 0 then .error (.text "worker slots must not be negative")
  else if input.batchLimit < 0 then .error (.text "batch limit must not be negative")
  else if input.algorithm ≠ "" ∧ input.algorithm ≠ algorithmVersion then
    .error (.about "unsupported scheduler algorithm %q" [input.algorithm])
  else
    let queues := cloneAndSort input.queues
    if queues.isEmpty ∨ input.workerSlots = 0 ∨ input.batchLimit = 0 then
      .ok (buildDecision input.sequence queues 0 [])
    else
      let cursor := (if input.cursor < 0 then 0 else input.cursor.toNat) % queues.length
      match rounds input.batchLimit (turnBound input.batchLimit queues)
          ⟨queues, cursor, input.workerSlots, [], 0⟩ with
      | .ok round => .ok (buildDecision input.sequence round.queues round.cursor round.grants)
      | .error error => .error error

/-- How often a queue can still be paid: once for every grant to come, and once more if
its turn comes before the loop gives up. -/
def paymentsLeft (batchLimit : Int) (round : Round) (place : Nat) : Int :=
  min (batchLimit - round.grants.length) (waiting round.queues).length +
    if ahead round.queues.length round.cursor place + round.visitedWithoutGrant <
      round.queues.length then 1 else 0

def InRange (batchLimit : Int) (round : Round) : Prop :=
  ∀ place queue, round.queues[place]? = some queue → queue.candidates ≠ [] →
    -2 ^ 63 ≤ queue.deficit ∧
      queue.deficit + paymentsLeft batchLimit round place * queue.quantum < 2 ^ 63

theorem max_weight (queue : Queue) : max queue.weight 1 = queue.quantum := by
  unfold Queue.quantum
  split <;> omega

section Loop

variable {batchLimit : Int} {round next : Round}

theorem int64_of_lt (low : -2 ^ 63 ≤ value) (high : value < 2 ^ 63) : int64 value = value := by
  unfold int64
  exact Int.bmod_eq_of_le (by norm_num; omega) (by norm_num; omega)

theorem one_le_paymentsLeft (inside : round.cursor < round.queues.length)
    (continues : round.continues batchLimit = true) :
    1 ≤ paymentsLeft batchLimit round round.cursor := by
  simp only [Round.continues, Bool.and_eq_true, decide_eq_true_eq] at continues
  unfold paymentsLeft
  rw [(ahead_eq_zero inside inside).mpr rfl, if_pos (by omega)]
  omega

theorem visit_eq (inRange : InRange batchLimit round)
    (inside : round.cursor < round.queues.length)
    (continues : round.continues batchLimit = true) :
    visit batchLimit round = Scheduler.visit batchLimit round := by
  unfold visit Scheduler.visit
  cases hqueue : round.queues[round.cursor]? with
  | none => rfl
  | some queue =>
    dsimp only
    split_ifs with hempty
    · rfl
    · obtain ⟨hlow, hhigh⟩ := inRange _ queue hqueue (by simpa using hempty)
      have hpositive := queue.quantum_pos
      have hpayment := Int.mul_le_mul_of_nonneg_right (one_le_paymentsLeft inside continues)
        hpositive.le
      rw [int64_of_lt (by omega) (by omega)]
      all_goals rfl

theorem paymentsLeft_next (continues : round.continues batchLimit = true)
    (visited : Visited batchLimit round queue served left next) (h : place < round.queues.length) :
    paymentsLeft batchLimit next place + (if round.cursor = place then 1 else 0) ≤
      paymentsLeft batchLimit round place := by
  have hcursor := (List.getElem?_eq_some_iff.mp visited.found).1
  have hwaiting : (served.map Candidate.grant ++ waiting next.queues).length =
      (waiting round.queues).length := by
    rw [visited.queues]
    exact (waiting_set visited.found visited.split).length_eq
  rw [List.length_append, List.length_map] at hwaiting
  have hgrants := congrArg List.length visited.grants
  rw [List.length_append, List.length_map] at hgrants
  simp only [Round.continues, Bool.and_eq_true, decide_eq_true_eq] at continues
  have hzero := ahead_eq_zero hcursor h
  have hahead := ahead_lt round.cursor place (Nat.zero_lt_of_lt hcursor)
  unfold paymentsLeft
  rw [visited.length, visited.cursor, visited.visited, ahead_next hcursor h]
  cases served with
  | nil =>
    simp only [List.isEmpty_nil, if_true, List.length_nil, Nat.zero_add, Nat.add_zero]
      at hwaiting hgrants ⊢
    split_ifs <;> omega
  | cons first served =>
    simp only [List.isEmpty_cons, Bool.false_eq_true, if_false, List.length_cons]
      at hwaiting hgrants ⊢
    split_ifs <;> omega

theorem InRange.visit (inRange : InRange batchLimit round)
    (continues : round.continues batchLimit = true)
    (visited : Visited batchLimit round queue served left next) : InRange batchLimit next := by
  intro place other hother hsome
  have hplace := visited.length ▸ (List.getElem?_eq_some_iff.mp hother).1
  have hpayments := paymentsLeft_next continues visited hplace
  rw [visited.queues] at hother
  by_cases hcursor : round.cursor = place
  · subst hcursor
    rw [List.getElem?_set_self hplace] at hother
    obtain rfl := Option.some.inj hother
    have hne : queue.candidates ≠ [] := by
      rw [visited.split]
      exact List.append_ne_nil_of_right_ne_nil served hsome
    obtain ⟨hlow, hhigh⟩ := inRange _ queue visited.found hne
    have hcost := length_le_cost visited.positive
    have hpaid := Int.mul_le_mul_of_nonneg_right hpayments queue.quantum_pos.le
    rw [if_pos rfl, Int.add_mul, Int.one_mul] at hpaid
    have hcredit := Queue.credit_eq hne
    have hpositive := queue.quantum_pos
    change _ ≤ queue.credit - cost served ∧ queue.credit - cost served +
      paymentsLeft batchLimit next round.cursor * queue.quantum < _
    rcases visited.affordable with rfl | hafford
    · rw [cost_nil]
      omega
    · omega
  · rw [List.getElem?_set_ne hcursor] at hother
    obtain ⟨hlow, hhigh⟩ := inRange place other hother hsome
    rw [if_neg hcursor, Int.add_zero] at hpayments
    have hpaid := Int.mul_le_mul_of_nonneg_right hpayments other.quantum_pos.le
    omega

theorem rounds_eq (inRange : InRange batchLimit round)
    (inside : round.cursor < round.queues.length) (fuel : Nat) :
    rounds batchLimit fuel round = Scheduler.rounds batchLimit fuel round ∧
      visits batchLimit fuel round = Scheduler.visits batchLimit fuel round := by
  induction fuel generalizing round with
  | zero => exact ⟨rfl, rfl⟩
  | succ fuel ih =>
    rw [rounds, Scheduler.rounds, visits, Scheduler.visits]
    split_ifs with hcontinues
    · rw [visit_eq inRange inside hcontinues]
      cases hvisit : Scheduler.visit batchLimit round with
      | error error => exact ⟨rfl, rfl⟩
      | ok next =>
        obtain ⟨_, _, _, visited⟩ := visit_ok inside hvisit
        obtain ⟨hrounds, hvisits⟩ := ih (inRange.visit hcontinues visited) visited.inside
        exact ⟨hrounds, congrArg (round :: ·) hvisits⟩
    · exact ⟨rfl, rfl⟩

end Loop

/-- Every queue with candidates has room for a quantum for every job that can be
granted, and one more. -/
def Fits (input : Snapshot) : Prop :=
  ∀ queue ∈ input.queues, queue.candidates ≠ [] → -2 ^ 63 ≤ queue.deficit ∧
    queue.deficit + (min input.batchLimit (waiting input.queues).length + 1) *
      max queue.weight 1 < 2 ^ 63

theorem Fits.inRange (h : Fits input) : InRange input.batchLimit input.start := by
  intro place queue hqueue hsome
  have hplace := (List.getElem?_eq_some_iff.mp hqueue).1
  obtain ⟨original, horiginal, rfl⟩ := mem_cloneAndSort.mp (List.mem_of_getElem? hqueue)
  have hne : original.candidates ≠ [] := by
    rintro hnil
    exact hsome (by rw [hnil]; rfl)
  have hpayments : paymentsLeft input.batchLimit input.start place =
      min input.batchLimit (waiting input.queues).length + 1 := by
    have hahead := ahead_lt input.start.cursor place (Nat.zero_lt_of_lt hplace)
    have hlength : (waiting input.start.queues).length = (waiting input.queues).length :=
      (waiting_cloneAndSort input.queues).length_eq
    unfold paymentsLeft
    rw [hlength, if_pos (by simpa [Snapshot.start] using hahead)]
    simp [Snapshot.start]
  rw [hpayments, ← max_weight]
  exact h original horiginal hne

theorem rounds_start (h : Fits input) (fuel : Nat) :
    rounds input.batchLimit fuel input.start = Scheduler.rounds input.batchLimit fuel input.start ∧
      visits input.batchLimit fuel input.start =
        Scheduler.visits input.batchLimit fuel input.start := by
  by_cases hempty : cloneAndSort input.queues = []
  · have hstops := start_stops (.inl hempty)
    cases fuel with
    | zero => exact ⟨rfl, rfl⟩
    | succ fuel => simp [rounds, Scheduler.rounds, visits, Scheduler.visits, hstops]
  · exact rounds_eq h.inRange (Nat.mod_lt _ (List.length_pos_iff.mpr hempty)) fuel

theorem decide_eq (h : Fits input) : decide input = Scheduler.decide input := by
  have hrounds := (rounds_start h (turnBound input.batchLimit (cloneAndSort input.queues))).1
  unfold decide Scheduler.decide
  unfold Snapshot.start at hrounds
  dsimp only
  rw [hrounds]
  all_goals rfl

end RailYard.Scheduler.Machine
