import RailYard.Lifecycle.Evolution

/-! Slot accounts. A tenant's account and a queue's account both hold the sum
of what their leased jobs occupy, and only a lease, which checks the tenant's
cap, adds to it. -/
namespace RailYard.Lifecycle
open Library Store

def tenantSlots (tenantID : String) (_ : String) (row : JobRow) : Int :=
  if row.tenantID = tenantID then slots row else 0

def queueSlots (key : String × String) (_ : String) (row : JobRow) : Int :=
  if (row.tenantID, row.queueName) = key then slots row else 0

structure Accounts (yard : Yard) : Prop where
  cost : ∀ id row, yard.jobs.get? id = some row → 0 < row.slotCost
  tenantExists : ∀ id row, yard.jobs.get? id = some row →
    (yard.tenants.get? row.tenantID).isSome
  queueExists : ∀ id row, yard.jobs.get? id = some row →
    (yard.queueSlots (row.tenantID, row.queueName)).isSome
  tenant : ∀ id limits, yard.tenants.get? id = some limits →
    limits.activeSlots = yard.jobs.sumBy (tenantSlots id)
  queue : ∀ key active, yard.queueSlots key = some active →
    active = yard.jobs.sumBy (queueSlots key)
  cap : ∀ id limits, yard.tenants.get? id = some limits → 0 < limits.maxSlots →
    limits.activeSlots ≤ limits.maxSlots

theorem slots_nonneg (h : 0 < row.slotCost) : 0 ≤ slots row := by
  unfold slots
  split <;> omega

theorem slots_of_unleased (h : row.state.leased = false) : slots row = 0 := by
  unfold slots
  simp [h]

theorem slots_of_leased (h : row.state.leased = true) : slots row = row.slotCost := by
  unfold slots
  simp [h]

theorem Accounts.tenant_holds (h : Accounts yard) {id : String}
    (hrow : yard.jobs.get? id = some row) (hleased : row.state.leased = true) :
    ∃ limits, yard.tenants.get? row.tenantID = some limits ∧
      row.slotCost ≤ limits.activeSlots := by
  obtain ⟨limits, hlimits⟩ := Option.isSome_iff_exists.mp (h.tenantExists id row hrow)
  refine ⟨limits, hlimits, ?_⟩
  have hpart : tenantSlots row.tenantID id row ≤ yard.jobs.sumBy (tenantSlots row.tenantID) := by
    refine yard.jobs.le_sumBy (fun key other hother => ?_) hrow
    unfold tenantSlots
    split
    · exact slots_nonneg (h.cost key other hother)
    · exact le_refl 0
  rw [← h.tenant row.tenantID limits hlimits] at hpart
  unfold tenantSlots at hpart
  rwa [if_pos rfl, slots_of_leased hleased] at hpart

theorem Accounts.queue_holds (h : Accounts yard) {id : String} (hrow : yard.jobs.get? id = some row)
    (hleased : row.state.leased = true) :
    ∃ active, yard.queueSlots (row.tenantID, row.queueName) = some active ∧
      row.slotCost ≤ active := by
  obtain ⟨active, hactive⟩ := Option.isSome_iff_exists.mp (h.queueExists id row hrow)
  refine ⟨active, hactive, ?_⟩
  have hpart : queueSlots (row.tenantID, row.queueName) id row ≤
      yard.jobs.sumBy (queueSlots (row.tenantID, row.queueName)) := by
    refine yard.jobs.le_sumBy (fun key other hother => ?_) hrow
    unfold queueSlots
    split
    · exact slots_nonneg (h.cost key other hother)
    · exact le_refl 0
  rw [← h.queue _ active hactive] at hpart
  unfold queueSlots at hpart
  rwa [if_pos rfl, slots_of_leased hleased] at hpart

theorem Accounts.of_same (h : Accounts yard) (jobs : yard'.jobs = yard.jobs)
    (tenants : yard'.tenants = yard.tenants) (queues : yard'.queueSlots = yard.queueSlots) :
    Accounts yard' := by
  obtain ⟨hcost, htenantExists, hqueueExists, htenant, hqueue, hcap⟩ := h
  exact ⟨by rwa [jobs], by rwa [jobs, tenants], by rwa [jobs, queues], by rwa [jobs, tenants],
    by rwa [jobs, queues], by rwa [tenants]⟩

theorem Move.Valid.delta_le {move : Move} (valid : move.Valid policy yard)
    (hcost : 0 < move.row.slotCost) :
    move.delta ≤ 0 ∨ ∀ limits, yard.tenants.get? move.row.tenantID = some limits →
      limits.maxSlots = 0 ∨ limits.activeSlots + move.delta ≤ limits.maxSlots := by
  have hbefore := slots_nonneg hcost
  have hgone : move.next.state.leased = false → move.delta ≤ 0 := by
    intro hnext
    unfold Move.delta
    rw [slots_of_unleased hnext]
    omega
  cases valid.kind with
  | lease attempt pending _ scheduled _ _ _ _ capacity =>
    right
    have hdelta : move.delta = move.row.slotCost := by
      unfold Move.delta
      rw [slots_of_leased (by rw [scheduled]; rfl), slots_of_unleased (by rw [pending]; rfl),
        valid.identity.slotCost]
      omega
    rwa [hdelta]
  | start _ scheduled running =>
    left
    unfold Move.delta
    rw [slots_of_leased (by rw [running]; rfl), slots_of_leased (by rw [scheduled]; rfl),
      valid.identity.slotCost]
    omega
  | close _ _ released => exact .inl (hgone released)
  | ready _ pending => exact .inl (hgone (by rw [pending]; rfl))
  | override _ target =>
    left
    apply hgone
    rcases target with target | target
    · rw [target]
      rfl
    · cases hstate : move.next.state <;> rw [hstate] at target <;> first | rfl | cases target
  | cascade _ _ dead => exact .inl (hgone (by rw [dead]; rfl))

theorem Move.sum_tenantSlots {move : Move} (valid : move.Valid policy yard) (tenantID : String) :
    (move.apply yard).jobs.sumBy (tenantSlots tenantID) =
      yard.jobs.sumBy (tenantSlots tenantID) +
        if move.row.tenantID = tenantID then move.delta else 0 := by
  unfold Move.apply
  rw [Table.sumBy_modify _ _ _ valid.found]
  unfold tenantSlots Move.delta
  rw [valid.identity.tenantID]
  split <;> ring

theorem Move.sum_queueSlots {move : Move} (valid : move.Valid policy yard) (key : String × String) :
    (move.apply yard).jobs.sumBy (queueSlots key) = yard.jobs.sumBy (queueSlots key) +
      if (move.row.tenantID, move.row.queueName) = key then move.delta else 0 := by
  unfold Move.apply
  rw [Table.sumBy_modify _ _ _ valid.found]
  unfold queueSlots Move.delta
  rw [valid.identity.tenantID, valid.identity.queueName]
  split <;> ring

theorem Move.get?_tenants_apply (move : Move) {id : String}
    (h : (move.apply yard).tenants.get? id = some limits) :
    ∃ before, yard.tenants.get? id = some before ∧ limits = { before with
      activeSlots := before.activeSlots + if move.row.tenantID = id then move.delta else 0 } := by
  unfold Move.apply Yard.shift at h
  dsimp only at h
  rw [Table.get?_modify] at h
  by_cases hid : id = move.row.tenantID
  · rw [if_pos hid, Option.map_eq_some_iff] at h
    obtain ⟨before, hbefore, rfl⟩ := h
    refine ⟨before, hid ▸ hbefore, ?_⟩
    rw [if_pos hid.symm]
  · rw [if_neg hid] at h
    refine ⟨limits, h, ?_⟩
    rw [if_neg (Ne.symm hid), add_zero]

theorem Accounts.move {move : Move} (h : Accounts yard) (valid : move.Valid policy yard) :
    Accounts (move.apply yard) where
  cost := by
    intro id row hrow
    rcases Move.get?_apply_cases valid hrow with ⟨rfl, rfl⟩ | ⟨_, hold⟩
    · rw [valid.identity.slotCost]
      exact h.cost move.id move.row valid.found
    · exact h.cost id row hold
  tenantExists := by
    have hkeep : ∀ id, (yard.tenants.get? id).isSome →
        ((move.apply yard).tenants.get? id).isSome := by
      intro id hsome
      unfold Move.apply Yard.shift
      dsimp only
      rw [Table.get?_modify]
      by_cases hid : id = move.row.tenantID
      · rw [if_pos hid, Option.isSome_map, ← hid]
        exact hsome
      · rwa [if_neg hid]
    intro id row hrow
    rcases Move.get?_apply_cases valid hrow with ⟨rfl, rfl⟩ | ⟨_, hold⟩
    · rw [valid.identity.tenantID]
      exact hkeep _ (h.tenantExists move.id move.row valid.found)
    · exact hkeep _ (h.tenantExists id row hold)
  queueExists := by
    have hkeep : ∀ key, (yard.queueSlots key).isSome →
        ((move.apply yard).queueSlots key).isSome := by
      intro key hsome
      unfold Move.apply Yard.shift
      dsimp only
      by_cases hkey : key = (move.row.tenantID, move.row.queueName)
      · rw [hkey, Function.update_self, Option.isSome_map, ← hkey]
        exact hsome
      · rwa [Function.update_of_ne hkey]
    intro id row hrow
    rcases Move.get?_apply_cases valid hrow with ⟨rfl, rfl⟩ | ⟨_, hold⟩
    · rw [valid.identity.tenantID, valid.identity.queueName]
      exact hkeep _ (h.queueExists move.id move.row valid.found)
    · exact hkeep _ (h.queueExists id row hold)
  tenant := by
    intro id limits hlimits
    obtain ⟨before, hbefore, rfl⟩ := Move.get?_tenants_apply move hlimits
    rw [Move.sum_tenantSlots valid]
    dsimp only
    rw [h.tenant id before hbefore]
  queue := by
    intro key active hactive
    rw [Move.sum_queueSlots valid]
    unfold Move.apply Yard.shift at hactive
    dsimp only at hactive
    by_cases hkey : key = (move.row.tenantID, move.row.queueName)
    · rw [hkey, Function.update_self, Option.map_eq_some_iff] at hactive
      obtain ⟨before, hbefore, rfl⟩ := hactive
      rw [if_pos hkey.symm, hkey, ← h.queue _ before hbefore]
    · rw [Function.update_of_ne hkey] at hactive
      rw [if_neg (Ne.symm hkey), add_zero]
      exact h.queue key active hactive
  cap := by
    intro id limits hlimits hpositive
    obtain ⟨before, hbefore, rfl⟩ := Move.get?_tenants_apply move hlimits
    dsimp only at hpositive ⊢
    have hcap := h.cap id before hbefore hpositive
    by_cases hid : move.row.tenantID = id
    · rw [if_pos hid]
      rcases valid.delta_le (h.cost move.id move.row valid.found) with hdelta | hdelta
      · omega
      · rcases hdelta before (hid ▸ hbefore) with hzero | hfits
        · omega
        · exact hfits
    · rw [if_neg hid]
      omega

theorem Batch.NewRow.slots_eq {batch : Batch} (h : batch.NewRow yard row) : slots row = 0 := by
  apply slots_of_unleased
  rcases h.state with hstate | hstate <;> rw [hstate] <;> rfl

theorem Accounts.admission {batch : Batch} (h : Accounts yard) (valid : batch.Valid yard) :
    Accounts (batch.apply yard) where
  cost := by
    intro id row hrow
    rcases Batch.get?_apply_cases valid hrow with ⟨hmem, _⟩ | ⟨_, hold⟩
    · exact (valid.rows id row hmem).slotCost
    · exact h.cost id row hold
  tenantExists := by
    intro id row hrow
    rcases Batch.get?_apply_cases valid hrow with ⟨hmem, _⟩ | ⟨_, hold⟩
    · exact (valid.rows id row hmem).tenant
    · exact h.tenantExists id row hold
  queueExists := by
    intro id row hrow
    rcases Batch.get?_apply_cases valid hrow with ⟨hmem, _⟩ | ⟨_, hold⟩
    · exact (valid.rows id row hmem).queue
    · exact h.queueExists id row hold
  tenant := by
    intro id limits hlimits
    unfold Batch.apply
    dsimp only
    rw [Table.sumBy_insertAll_zero]
    · exact h.tenant id limits hlimits
    · intro entry hentry
      unfold tenantSlots
      rw [(valid.rows entry.1 entry.2 hentry).slots_eq, ite_self]
  queue := by
    intro key active hactive
    unfold Batch.apply
    dsimp only
    rw [Table.sumBy_insertAll_zero]
    · exact h.queue key active hactive
    · intro entry hentry
      unfold queueSlots
      rw [(valid.rows entry.1 entry.2 hentry).slots_eq, ite_self]
  cap := h.cap

theorem Accounts.insertTenant {id : String} (h : Accounts yard)
    (habsent : yard.tenants.get? id = none) (hidle : row.activeSlots = 0) :
    Accounts { yard with tenants := yard.tenants.insert id row } where
  cost := h.cost
  queueExists := h.queueExists
  queue := h.queue
  tenantExists := by
    intro job found hfound
    dsimp only
    have hsome := h.tenantExists job found hfound
    rw [Table.get?_insert]
    split
    · rfl
    · exact hsome
  tenant := by
    intro id' limits hlimits
    dsimp only at hlimits ⊢
    by_cases hid : id' = id
    · rw [hid, Table.get?_insert_self _ _ habsent, Option.some.injEq] at hlimits
      rw [← hlimits, hidle, Table.sumBy_eq_zero]
      intro job found hfound
      unfold tenantSlots
      rw [if_neg]
      intro heq
      have hsome := h.tenantExists job found hfound
      rw [heq, hid, habsent] at hsome
      cases hsome
    · rw [Table.get?_insert_ne _ _ hid] at hlimits
      exact h.tenant id' limits hlimits
  cap := by
    intro id' limits hlimits hpositive
    dsimp only at hlimits
    by_cases hid : id' = id
    · rw [hid, Table.get?_insert_self _ _ habsent, Option.some.injEq] at hlimits
      rw [← hlimits] at hpositive ⊢
      omega
    · rw [Table.get?_insert_ne _ _ hid] at hlimits
      exact h.cap id' limits hlimits hpositive

theorem Accounts.insertQueue (h : Accounts yard) (habsent : yard.queueSlots key = none) :
    Accounts { yard with queueSlots := Function.update yard.queueSlots key (some 0) } where
  cost := h.cost
  tenantExists := h.tenantExists
  tenant := h.tenant
  cap := h.cap
  queueExists := by
    intro job found hfound
    dsimp only
    by_cases hkey : (found.tenantID, found.queueName) = key
    · rw [hkey, Function.update_self]
      rfl
    · rw [Function.update_of_ne hkey]
      exact h.queueExists job found hfound
  queue := by
    intro key' active hactive
    dsimp only at hactive ⊢
    by_cases hkey : key' = key
    · rw [hkey, Function.update_self, Option.some.injEq] at hactive
      rw [← hactive, Table.sumBy_eq_zero]
      intro job found hfound
      unfold queueSlots
      rw [if_neg]
      intro heq
      have hsome := h.queueExists job found hfound
      rw [heq, hkey, habsent] at hsome
      cases hsome
    · rw [Function.update_of_ne hkey] at hactive
      exact h.queue key' active hactive

theorem Accounts.micro (yard yard' : Yard) (h : Accounts yard) (hstep : Micro policy yard yard') :
    Accounts yard' := by
  cases hstep with
  | tenant id row absent idle => exact h.insertTenant absent idle
  | queue key absent => exact h.insertQueue absent
  | admission batch valid => exact h.admission valid
  | heartbeat => exact h.of_same rfl rfl rfl
  | note => exact h.of_same rfl rfl rfl
  | move move valid => exact h.move valid

end RailYard.Lifecycle
