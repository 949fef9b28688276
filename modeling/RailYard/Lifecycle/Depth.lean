import RailYard.Lifecycle.Slots

/-! The depth of a tenant's queue: jobs that have not ended. Only an admission
adds to it, and it has asked for room before. -/
namespace RailYard.Lifecycle
open Library Store

def WithinDepth (yard : Yard) : Prop :=
  ∀ tenantID limits, yard.tenants.get? tenantID = some limits → 0 < limits.maxDepth →
    yard.depth tenantID ≤ limits.maxDepth

theorem depth_of_absent (accounts : Accounts yard) (h : yard.tenants.get? tenantID = none) :
    yard.depth tenantID = 0 := by
  apply Table.sumBy_eq_zero
  intro id row hrow
  have hexists := accounts.tenantExists id row hrow
  rw [if_neg]
  intro hoccupies
  simp only [Yard.occupies, Bool.and_eq_true, decide_eq_true_eq] at hoccupies
  simp [hoccupies.1, h] at hexists

theorem WithinDepth.move {move : Move} (h : WithinDepth yard) (valid : move.Valid policy yard) :
    WithinDepth (move.apply yard) := by
  intro tenantID limits hlimits hpositive
  obtain ⟨before, hbefore, rfl⟩ := Move.get?_tenants_apply move hlimits
  have hdepth : (move.apply yard).depth tenantID ≤ yard.depth tenantID := by
    unfold Yard.depth Move.apply
    rw [Table.sumBy_modify _ _ _ valid.found]
    have halive := valid.alive
    have htenant := valid.identity.tenantID
    simp only [Yard.occupies, halive, htenant]
    split_ifs <;> simp_all
  exact hdepth.trans (h tenantID before hbefore hpositive)

theorem WithinDepth.admission {batch : Batch} (h : WithinDepth yard) (valid : batch.Valid yard) :
    WithinDepth (batch.apply yard) := by
  intro tenantID limits hlimits hpositive
  by_cases hmine : ∃ entry ∈ batch.jobs, entry.2.tenantID = tenantID
  · obtain ⟨entry, hentry, rfl⟩ := hmine
    have hroom := valid.depth entry.1 entry.2 limits hentry hlimits hpositive
    have hgrown : (batch.apply yard).depth entry.2.tenantID ≤
        yard.depth entry.2.tenantID + batch.jobs.length :=
      yard.jobs.sumBy_insertAll_le fun other _ => by
        split <;> omega
    omega
  · push Not at hmine
    have hsame : (batch.apply yard).depth tenantID = yard.depth tenantID :=
      yard.jobs.sumBy_insertAll_zero fun entry hentry => by
        simp [Yard.occupies, hmine entry hentry]
    rw [hsame]
    exact h tenantID limits hlimits hpositive

theorem WithinDepth.micro (yard yard' : Yard) (h : WithinDepth yard) (accounts : Accounts yard)
    (hstep : Micro policy yard yard') : WithinDepth yard' := by
  cases hstep with
  | tenant id row absent =>
    intro tenantID limits hlimits hpositive
    change yard.depth tenantID ≤ limits.maxDepth
    by_cases hid : tenantID = id
    · rw [hid, depth_of_absent accounts absent]
      omega
    · rw [Table.get?_insert_ne _ _ hid] at hlimits
      exact h tenantID limits hlimits hpositive
  | queue | heartbeat | note => exact h
  | admission batch valid => exact h.admission valid
  | move move valid => exact h.move valid

end RailYard.Lifecycle
