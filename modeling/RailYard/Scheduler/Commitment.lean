import RailYard.Scheduler.LogReader
import Mathlib.Data.List.Induction

/-! The hash of the last record stands for the whole log: two chains with the
same head agree record by record, back to the first. -/
namespace RailYard.Scheduler
open Library Domain

variable {record record' : Record}

structure Agrees (record record' : Record) : Prop where
  input : canonicalSnapshot record.input = canonicalSnapshot record'.input
  decision : record.decision = record'.decision
  hash : record.hash = record'.hash

theorem hash_of_verify (h : record.verify sha256 previous = .ok ()) :
    record.hash = hexDigest sha256 (hashMaterial record.input.sequence previous
      (canonicalSnapshot record.input) record.decision).render := by
  obtain ⟨_, _, expected, hexpected, hhash⟩ := verify_ok_iff.mp h
  obtain ⟨hrecord, hdecision⟩ := recordOf_newRecord hexpected
  rw [hhash, hrecord.hash, hdecision]

theorem agrees_of_hash (collisionFree : Function.Injective sha256)
    (h : record.verify sha256 previous = .ok ()) (h' : record'.verify sha256 previous' = .ok ())
    (hash : record.hash = record'.hash) : previous = previous' ∧ Agrees record record' := by
  have hdigest := hash
  rw [hash_of_verify h, hash_of_verify h'] at hdigest
  have hmaterial := JsonReader.render_injective (hexDigest_injective collisionFree hdigest)
  obtain ⟨hprevious, hinput, hdecision⟩ := hashMaterial_inj hmaterial
  exact ⟨hprevious, hinput, hdecision, hash⟩

theorem Linked.init (h : Linked sha256 (log ++ [record])) :
    Linked sha256 log ∧ record.verify sha256 (headHash log) = .ok () := by
  refine ⟨fun earlier other later hsplit => ?_, (h log record [] rfl).2⟩
  exact h earlier other (later ++ [record]) (by rw [hsplit, List.append_assoc, List.cons_append])

theorem Linked.eq_nil (nonempty : ∀ bytes, sha256 bytes ≠ []) (h : Linked sha256 log)
    (hhead : headHash log = "") : log = [] := by
  rcases List.eq_nil_or_concat log with hnil | ⟨before, last, rfl⟩
  · exact hnil
  · rw [List.concat_eq_append] at h hhead
    rw [headHash_append, hash_of_verify h.init.2] at hhead
    exact (nonempty _ (hexEncode_injective (hhead.trans (rfl : "" = hexEncode [])))).elim

theorem Linked.agree (collisionFree : Function.Injective sha256)
    (nonempty : ∀ bytes, sha256 bytes ≠ []) (h : Linked sha256 log) (h' : Linked sha256 log')
    (hhead : headHash log = headHash log') : List.Forall₂ Agrees log log' := by
  induction log using List.reverseRecOn generalizing log' with
  | nil =>
    rw [h'.eq_nil nonempty hhead.symm]
    exact .nil
  | append_singleton log record ih =>
    rcases List.eq_nil_or_concat log' with rfl | ⟨before, last, rfl⟩
    · exact absurd (h.eq_nil nonempty hhead) (by simp)
    · rw [List.concat_eq_append] at h' hhead ⊢
      rw [headHash_append, headHash_append] at hhead
      obtain ⟨hbefore, hverify⟩ := h.init
      obtain ⟨hbefore', hverify'⟩ := h'.init
      obtain ⟨hprevious, hagrees⟩ := agrees_of_hash collisionFree hverify hverify' hhead
      exact List.rel_append (ih hbefore hbefore' hprevious) (.cons hagrees .nil)

end RailYard.Scheduler
