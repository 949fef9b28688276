import Mathlib.Data.List.Range
import Mathlib.Data.Set.Finite.Basic

/-! Orders that take one key after another whose parents have all been taken, and
what the queue of such a loop knows about the keys still to come. -/
namespace RailYard.Library.Traversal

variable {κ : Type*} (keys : List κ) (parents : κ → List κ)

def Available (order : List κ) (key : κ) : Prop :=
  key ∈ keys ∧ key ∉ order ∧ ∀ parent ∈ parents key, parent ∈ order

inductive Taken (rule : List κ → κ → Prop) : List κ → Prop
  | nil : Taken rule []
  | snoc : Taken rule order → Available keys parents order key → rule order key →
      Taken rule (order ++ [key])

def HasCycle : Prop := ∃ key, Relation.TransGen (fun parent child => parent ∈ parents child) key key

variable {keys parents} {rule : List κ → κ → Prop} {order ready : List κ} {key : κ}
  {degree : κ → Nat}

theorem Taken.at (h : Taken keys parents rule order) : ∀ front rest, order = front ++ key :: rest →
    Available keys parents front key ∧ rule front key := by
  induction h with
  | nil => intro front rest heq; simp at heq
  | @snoc order last _ available hrule ih =>
    intro front rest heq
    rcases List.eq_nil_or_concat rest with rfl | ⟨rest', other, rfl⟩
    · obtain ⟨rfl, heq⟩ := List.append_inj' heq rfl
      obtain rfl : last = key := by simpa using heq
      exact ⟨available, hrule⟩
    · rw [List.concat_eq_append, ← List.cons_append, ← List.append_assoc] at heq
      exact ih front rest' (List.append_inj' heq rfl).1

theorem Taken.closed (h : Taken keys parents rule order) (hin : key ∈ order) :
    ∀ parent ∈ parents key, parent ∈ order := by
  intro parent hparent
  obtain ⟨front, rest, rfl⟩ := List.append_of_mem hin
  exact List.mem_append_left _ ((h.at front rest rfl).1.2.2 parent hparent)

theorem Taken.subperm (h : Taken keys parents rule order) : order.Subperm keys := by
  have hnodup : order.Nodup := by
    induction h with
    | nil => exact List.nodup_nil
    | snoc _ available _ ih =>
      rw [List.nodup_append]
      refine ⟨ih, List.nodup_singleton _, ?_⟩
      intro key hkey other hother heq
      rw [List.mem_singleton.mp hother] at heq
      exact available.2.1 (heq ▸ hkey)
  refine List.subperm_of_subset hnodup fun key hkey => ?_
  obtain ⟨front, rest, heq⟩ := List.append_of_mem hkey
  exact (h.at front rest heq).1.1

theorem acyclic_induction (acyclic : ¬HasCycle parents)
    (bound : ∀ child, ∀ parent ∈ parents child, parent ∈ keys) {motive : κ → Prop}
    (step : ∀ child ∈ keys, (∀ parent ∈ parents child, motive parent) → motive child) :
    ∀ key ∈ keys, motive key := by
  let above : { key // key ∈ keys } → { key // key ∈ keys } → Prop := fun parent child =>
    Relation.TransGen (fun parent child => parent ∈ parents child) parent.1 child.1
  have htrans : IsTrans _ above := ⟨fun _ _ _ hab hbc => hab.trans hbc⟩
  have hirrefl : Std.Irrefl above := ⟨fun key hcycle => acyclic ⟨key, hcycle⟩⟩
  have hfinite : Finite { key // key ∈ keys } := Multiset.finite_toSet (keys : Multiset κ)
  have hwell : WellFounded above := Finite.wellFounded_of_trans_of_irrefl above
  intro key hkey
  induction hall : (⟨key, hkey⟩ : { key // key ∈ keys }) using hwell.induction generalizing key with
  | _ place ih =>
    subst hall
    exact step key hkey fun parent hparent =>
      ih ⟨parent, bound key parent hparent⟩ (.single hparent) parent (bound key parent hparent) rfl

variable [DecidableEq κ]

structure Topological (keys : List κ) (parents : κ → List κ) (order : List κ) : Prop where
  perm : order.Perm keys
  before : ∀ child, ∀ parent ∈ parents child, order.idxOf parent < order.idxOf child

def waiting (parents : κ → List κ) (order : List κ) (key : κ) : Nat := (parents key).countP (· ∉ order)

/-- The queue holds the available keys, and every key is counted what it waits for. -/
structure Frontier (keys : List κ) (parents : κ → List κ) (rule : List κ → κ → Prop)
    (order ready : List κ) (degree : κ → Nat) : Prop where
  taken : Taken keys parents rule order
  nodup : ready.Nodup
  mem_ready : ∀ key, key ∈ ready ↔ Available keys parents order key
  counted : ∀ key ∈ keys, degree key = waiting parents order key

theorem Taken.topological (h : Taken keys parents rule order) (perm : order.Perm keys)
    (bound : ∀ child, ∀ parent ∈ parents child, child ∈ keys) :
    Topological keys parents order := by
  refine ⟨perm, fun child parent hparent => ?_⟩
  obtain ⟨front, rest, rfl⟩ := List.append_of_mem (perm.mem_iff.mpr (bound child parent hparent))
  obtain ⟨_, hout, hparents⟩ := (h.at front rest rfl).1
  have hin := hparents parent hparent
  rw [List.idxOf_append_of_mem hin, List.idxOf_append_of_notMem hout]
  exact Nat.lt_add_right _ (List.idxOf_lt_length_iff.mpr hin)

theorem Topological.available (nodup : keys.Nodup) {front rest : List κ}
    (h : Topological keys parents (front ++ key :: rest)) : Available keys parents front key := by
  have hnodup := h.perm.nodup_iff.mpr nodup
  have hfront : key ∉ front := fun hin =>
    (List.nodup_append.mp hnodup).2.2 key hin key (List.mem_cons_self ..) rfl
  refine ⟨h.perm.mem_iff.mp (by simp), hfront, ?_⟩
  intro parent hparent
  have hlt := h.before key parent hparent
  rw [List.idxOf_append_of_notMem hfront, List.idxOf_cons_self] at hlt
  by_contra hout
  rw [List.idxOf_append_of_notMem hout] at hlt
  omega

theorem Topological.acyclic (h : Topological keys parents order) : ¬HasCycle parents := by
  rintro ⟨key, hcycle⟩
  have hless : ∀ a b, Relation.TransGen (fun parent child => parent ∈ parents child) a b →
      order.idxOf a < order.idxOf b := by
    intro a b hpath
    induction hpath with
    | single hedge => exact h.before _ _ hedge
    | tail _ hedge ih => exact ih.trans (h.before _ _ hedge)
  exact Nat.lt_irrefl _ (hless key key hcycle)

theorem waiting_eq_zero : waiting parents order key = 0 ↔
    ∀ parent ∈ parents key, parent ∈ order := by
  simp [waiting, List.countP_eq_zero]

theorem waiting_snoc (hnew : key ∉ order) (child : κ) (nodup : (parents child).Nodup) :
    waiting parents (order ++ [key]) child =
      waiting parents order child - if key ∈ parents child then 1 else 0 := by
  have hsplit : ∀ some : List κ, some.countP (· ∉ order) =
      some.countP (· ∉ order ++ [key]) + some.count key := by
    intro some
    induction some with
    | nil => rfl
    | cons parent rest ih =>
      rw [List.countP_cons, List.countP_cons, List.count_cons, ih]
      by_cases hparent : parent = key
      · simp [hparent, hnew]
        omega
      · simp [hparent]
        omega
  unfold waiting
  rw [hsplit, nodup.count]
  omega

theorem available_snoc (nodup : ∀ child, (parents child).Nodup)
    (taken : Taken keys parents rule order) (available : Available keys parents order key)
    (other : κ) : Available keys parents (order ++ [key]) other ↔
      (Available keys parents order other ∧ other ≠ key) ∨
        (other ∈ keys ∧ key ∈ parents other ∧ waiting parents order other - 1 = 0) := by
  have hwaiting := waiting_snoc available.2.1 other (nodup other)
  unfold Available
  rw [← waiting_eq_zero, ← waiting_eq_zero, hwaiting, List.mem_append, List.mem_singleton, not_or]
  by_cases hedge : key ∈ parents other
  · have hself : other ≠ key := by
      rintro rfl
      exact available.2.1 (available.2.2 other hedge)
    have hout : other ∉ order := fun hin => available.2.1 (taken.closed hin key hedge)
    have hzero : waiting parents order other ≠ 0 := fun hzero =>
      available.2.1 (waiting_eq_zero.mp hzero key hedge)
    simp [hedge, hself, hout, hzero]
  · simp only [hedge, if_false, false_and, and_false, or_false, Nat.sub_zero]
    tauto

/-- One turn: the first key of the queue is taken, and the children it was the last
parent of join the queue. -/
theorem Frontier.step (nodup : ∀ child, (parents child).Nodup)
    (h : Frontier keys parents rule order (key :: ready) degree) (hrule : rule order key)
    {released ready' : List κ} (hready : ready'.Perm (ready ++ released))
    (hnodup : released.Nodup) (hreleased : ∀ child, child ∈ released ↔
      child ∈ keys ∧ key ∈ parents child ∧ degree child - 1 = 0)
    (hdegree : ∀ child ∈ keys, degree' child =
      degree child - if key ∈ parents child then 1 else 0) :
    Frontier keys parents rule (order ++ [key]) ready' degree' := by
  have havailable := (h.mem_ready key).mp (List.mem_cons_self ..)
  have hfresh := List.nodup_cons.mp h.nodup
  refine ⟨h.taken.snoc havailable hrule, ?_, fun other => ?_, fun other hother => ?_⟩
  · rw [hready.nodup_iff, List.nodup_append]
    refine ⟨hfresh.2, hnodup, ?_⟩
    rintro child hin _ hchild rfl
    -- a child that was waiting for `key` was not in the queue
    exact havailable.2.1 (((h.mem_ready child).mp (List.mem_cons_of_mem _ hin)).2.2 key
      ((hreleased child).mp hchild).2.1)
  · rw [hready.mem_iff, available_snoc nodup h.taken havailable, List.mem_append, hreleased,
      ← h.mem_ready other, List.mem_cons]
    constructor
    · rintro (hin | ⟨hkey, hedge, hzero⟩)
      · exact .inl ⟨.inr hin, fun heq => hfresh.1 (heq ▸ hin)⟩
      · exact .inr ⟨hkey, hedge, h.counted other hkey ▸ hzero⟩
    · rintro (⟨rfl | hin, hne⟩ | ⟨hkey, hedge, hzero⟩)
      · exact (hne rfl).elim
      · exact .inl hin
      · exact .inr ⟨hkey, hedge, (h.counted other hkey).symm ▸ hzero⟩
  · rw [hdegree other hother, h.counted other hother,
      waiting_snoc havailable.2.1 other (nodup other)]

theorem Frontier.length_lt (h : Frontier keys parents rule order (key :: ready) degree)
    (hrule : rule order key) : order.length < keys.length := by
  have hnext := h.taken.snoc ((h.mem_ready key).mp (List.mem_cons_self ..)) hrule
  have hle := hnext.subperm.length_le
  rwa [List.length_append, List.length_singleton] at hle

theorem Frontier.complete_iff (h : Frontier keys parents rule order [] degree) (nodup : keys.Nodup)
    (bound : ∀ child, ∀ parent ∈ parents child, child ∈ keys ∧ parent ∈ keys) :
    order.length = keys.length ↔ ¬HasCycle parents := by
  constructor
  · intro hlength
    have hperm := h.taken.subperm.perm_of_length_le hlength.ge
    exact (h.taken.topological hperm fun _ _ hparent => (bound _ _ hparent).1).acyclic
  · intro acyclic
    have hall : ∀ key ∈ keys, key ∈ order := by
      refine acyclic_induction (motive := (· ∈ order)) acyclic
        (fun _ _ hparent => (bound _ _ hparent).2) fun key hkey hparents => ?_
      by_contra hout
      exact List.not_mem_nil ((h.mem_ready key).mpr ⟨hkey, hout, hparents⟩)
    exact Nat.le_antisymm h.taken.subperm.length_le (List.subperm_of_subset nodup hall).length_le

end RailYard.Library.Traversal
