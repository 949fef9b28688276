import RailYard.Scheduler.Rotation
import RailYard.Scheduler.Shares

/-! Decisions that grant nothing. The loop then ends only after a turn of every
queue, so each of them was paid and still cannot afford its head. -/
namespace RailYard.Scheduler

theorem decide_stalled (h : decide input = .ok decision)
    (nodup : (input.queues.map Queue.key).Nodup) (slots : 0 < input.workerSlots)
    (limit : 0 < input.batchLimit) (roomy : ∀ queue ∈ input.queues, ∀ candidate ∈ queue.candidates,
      candidate.slotCost ≤ input.workerSlots) (none : decision.grants = [])
    (hqueue : queue ∈ input.queues) (waits : queue.candidates ≠ []) :
    ∃ deficit, decision.deficit? queue.key = some deficit ∧ queue.deficit < deficit ∧
      ∃ candidate ∈ queue.candidates, deficit < candidate.slotCost := by
  obtain ⟨place, hplace⟩ := exists_place hqueue
  rcases decide_cases h with ⟨hempty | hzero | hzero, _⟩ | ⟨last, ran⟩
  · rw [show input.start.queues = [] from hempty] at hplace
    cases hplace
  · omega
  · omega
  have hgrants : last.grants = [] := by
    rw [ran.decision_eq] at none
    exact none
  have hremaining : last.remaining = input.workerSlots := by
    rw [ran.balanced.remaining, hgrants, totalCost_nil, sub_zero]
  obtain ⟨origins, hshares⟩ := ran.shares
  obtain ⟨after, hafter, hshare⟩ := hshares.share place _ hplace
  obtain rfl : origins = [] := by
    rw [hshares.grants, List.map_eq_nil_iff] at hgrants
    exact hgrants
  have hkey : after.key = queue.key := hshare.key
  have hsplit : sortCandidates queue.candidates = after.candidates := hshare.split
  obtain ⟨head, tail, hhead⟩ : ∃ head tail, sortCandidates queue.candidates = head :: tail := by
    refine List.ne_nil_iff_exists_cons.mp fun hnil => waits ?_
    exact List.perm_nil.mp (hnil ▸ (List.perm_insertionSort _ queue.candidates).symm)
  have hmem : head ∈ queue.candidates := mem_sortCandidates.mp (hhead ▸ List.mem_cons_self ..)
  have hcost := roomy queue hqueue head hmem
  -- Nothing but a whole circle of turns ends a loop that has granted nothing.
  have hpaid := ran.paid_once hgrants (by omega) hplace (by simp [hhead])
  have hstuck := ran.stuck (by rw [hgrants]; exact limit) (by omega) place after head tail hafter
    (hsplit ▸ hhead)
  have hdeficit : after.deficit = queue.deficit + queue.quantum := by
    rw [hshare.deficit, hpaid, Nat.cast_one, one_mul]
    exact sub_zero _
  have hquantum : 0 < queue.quantum := by
    unfold Queue.quantum
    split <;> omega
  have hnames : (last.queues.map Queue.key).Nodup := by
    rw [ran.balanced.names, keys_cloneAndSort (.refl _), (ordered_perm _).nodup_iff]
    exact nodup
  refine ⟨after.deficit, ?_, by omega, head, hmem, by omega⟩
  rw [ran.decision_eq, ← hkey]
  exact deficit?_of_mem hnames (List.mem_of_getElem? hafter)

end RailYard.Scheduler
