import RailYard.Scheduler.DecisionLog
import RailYard.Library.Ranking
import Mathlib.Data.Prod.Lex

/-! The canonical form of a snapshot. It is canonical already, the scheduler
sees no difference, and the order in which the queues came is gone. -/
namespace RailYard.Scheduler
open Library Domain

def Candidate.rank (candidate : Candidate) : Bool ×ₗ ℤ ×ₗ ℤ ×ₗ String :=
  toLex (!candidate.recovery, toLex (-candidate.priority,
    toLex (candidate.readySeq, candidate.jobID)))

def Queue.rank (queue : Queue) : String ×ₗ String := toLex (queue.tenantID, queue.name)

theorem ranks_candidateLess : Ranks candidateLess Candidate.rank := by
  intro a b
  unfold candidateLess Candidate.rank
  rw [Prod.Lex.toLex_lt_toLex, Prod.Lex.toLex_lt_toLex, Prod.Lex.toLex_lt_toLex]
  dsimp only
  by_cases hrecovery : a.recovery = b.recovery
  · by_cases hpriority : a.priority = b.priority
    · by_cases hready : a.readySeq = b.readySeq <;> simp [hrecovery, hpriority, hready]
    · simp [hrecovery, hpriority]
  · cases ha : a.recovery <;> cases hb : b.recovery <;> simp_all

theorem ranks_queueLess : Ranks queueLess Queue.rank := by
  intro a b
  unfold queueLess Queue.rank
  rw [Prod.Lex.toLex_lt_toLex]
  by_cases htenant : a.tenantID = b.tenantID <;> simp [htenant]

theorem cloneAndSort_cloneAndSort (queues : List Queue) :
    cloneAndSort (cloneAndSort queues) = cloneAndSort queues := by
  have hclone : ((cloneAndSort queues).map fun queue =>
      { queue with candidates := sortCandidates queue.candidates }) = cloneAndSort queues := by
    refine (List.map_congr_left fun queue hqueue => ?_).trans (List.map_id _)
    unfold cloneAndSort at hqueue
    rw [List.mem_insertionSort, List.mem_map] at hqueue
    obtain ⟨original, _, rfl⟩ := hqueue
    dsimp only
    rw [sortCandidates, sortCandidates, ranks_candidateLess.sort_sort]
    rfl
  rw [cloneAndSort, hclone]
  exact ranks_queueLess.sort_sort _

theorem cloneAndSort_perm (h : queues.Perm queues')
    (nodup : (queues.map fun queue => (queue.tenantID, queue.name)).Nodup) :
    cloneAndSort queues = cloneAndSort queues' := by
  refine ranks_queueLess.sort_perm (h.map _) ?_
  intro first hfirst second hsecond hrank
  obtain ⟨a, ha, rfl⟩ := List.mem_map.mp hfirst
  obtain ⟨b, hb, rfl⟩ := List.mem_map.mp hsecond
  rw [List.inj_on_of_nodup_map nodup ha hb (toLex.injective hrank)]

theorem canonicalSnapshot_canonicalSnapshot (input : Snapshot) :
    canonicalSnapshot (canonicalSnapshot input) = canonicalSnapshot input := by
  unfold canonicalSnapshot
  dsimp only
  rw [cloneAndSort_cloneAndSort]
  by_cases hempty : input.algorithm = ""
  · simp [hempty]
  · simp [hempty]

theorem decide_canonicalSnapshot (input : Snapshot) :
    decide (canonicalSnapshot input) = decide input := by
  unfold decide canonicalSnapshot
  dsimp only
  rw [cloneAndSort_cloneAndSort]
  by_cases hempty : input.algorithm = ""
  · simp [hempty]
  · simp [hempty]

theorem newRecord_canonicalSnapshot (previous : String) (input : Snapshot) (decision : Decision) :
    newRecord sha256 previous (canonicalSnapshot input) decision =
      newRecord sha256 previous input decision := by
  unfold newRecord
  rw [canonicalSnapshot_canonicalSnapshot]
  rfl

section Order

variable {queues : List Queue} {input : Snapshot} (h : queues.Perm input.queues)
  (nodup : (input.queues.map fun queue => (queue.tenantID, queue.name)).Nodup)
include h nodup

theorem canonicalSnapshot_perm :
    canonicalSnapshot { input with queues := queues } = canonicalSnapshot input := by
  unfold canonicalSnapshot
  dsimp only
  rw [cloneAndSort_perm h.symm nodup]

/-- The order of the queues does not matter for a decision, -/
theorem decide_perm : decide { input with queues := queues } = decide input := by
  rw [← decide_canonicalSnapshot, canonicalSnapshot_perm h nodup, decide_canonicalSnapshot]

/-- nor for its record. -/
theorem newRecord_perm (previous : String) (decision : Decision) :
    newRecord sha256 previous { input with queues := queues } decision =
      newRecord sha256 previous input decision := by
  rw [← newRecord_canonicalSnapshot, canonicalSnapshot_perm h nodup, newRecord_canonicalSnapshot]

end Order

end RailYard.Scheduler
