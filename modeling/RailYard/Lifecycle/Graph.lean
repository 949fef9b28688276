import RailYard.Lifecycle.Leases

/-! The dependency graph: it stays acyclic within tenants, it holds back jobs
whose parents have not succeeded as long as operators respect it, and a failure
is never left with a live job below it. -/
namespace RailYard.Lifecycle
open Library Store Relation

variable {yard yard' : Yard}

structure Graph (yard : Yard) : Prop where
  ends : ∀ child parent, yard.DependsOn child parent →
    ∃ row upstream, yard.jobs.get? child = some row ∧ yard.jobs.get? parent = some upstream ∧
      upstream.tenantID = row.tenantID
  acyclic : ∀ id, ¬yard.Descendant id id

theorem Yard.Descendant.exists_root (graph : Graph yard) {id : String} (h : yard.Descendant root id)
    : ∃ row, yard.jobs.get? root = some row := by
  obtain ⟨child, hedge, _⟩ := TransGen.head'_iff.mp h
  obtain ⟨_, upstream, _, hupstream, _⟩ := graph.ends child root hedge
  exact ⟨upstream, hupstream⟩

theorem Yard.Descendant.of_evolves (graph : Graph yard) (hevolves : Evolves yard yard')
    {id : String} (hrow : yard.jobs.get? id = some row) (h : yard'.Descendant root id) :
    yard.Descendant root id := by
  induction h generalizing row with
  | single hedge => exact .single ((hevolves.edges _ _ row hrow).mp hedge)
  | tail _ hedge ih =>
    have hold := (hevolves.edges _ _ row hrow).mp hedge
    obtain ⟨_, upstream, _, hupstream, _⟩ := graph.ends _ _ hold
    exact (ih hupstream).tail hold

/-- Nothing below `root` holds a lease. -/
def Yard.Clear (yard : Yard) (root : String) : Prop :=
  ∀ id row, yard.Descendant root id → yard.jobs.get? id = some row → row.state.leased = false

theorem Yard.Clear.micros (graph : Graph yard) (quiet : ¬policy.granting)
    (hmicros : ReflTransGen (Micro policy) yard yard')
    (h : ∀ row, yard.jobs.get? root = some row → yard.Clear root) : yard'.Clear root := by
  intro id row hdescendant hrow
  by_contra hleased
  obtain ⟨before, hbefore, hheld⟩ :=
    leased_of_micros quiet hmicros hrow (Bool.eq_true_of_not_eq_false hleased)
  have hold := hdescendant.of_evolves graph (evolves_of_micros hmicros) hbefore
  obtain ⟨source, hsource⟩ := hold.exists_root graph
  rw [h source hsource id before hold hbefore] at hheld
  cases hheld

theorem Graph.of_later (h : Graph yard) (edges : yard'.edges = yard.edges)
    (later : ∀ id row, yard.jobs.get? id = some row →
      ∃ row', yard'.jobs.get? id = some row' ∧ Later row row') : Graph yard' where
  ends := by
    intro child parent hedge
    unfold Yard.DependsOn at hedge
    rw [edges] at hedge
    obtain ⟨row, upstream, hrow, hupstream, htenant⟩ := h.ends child parent hedge
    obtain ⟨row', hrow', hlater⟩ := later child row hrow
    obtain ⟨upstream', hupstream', hlater'⟩ := later parent upstream hupstream
    exact ⟨row', upstream', hrow', hupstream', by
      rw [hlater.identity.tenantID, hlater'.identity.tenantID, htenant]⟩
  acyclic := by
    unfold Yard.Descendant Yard.DependsOn
    rw [edges]
    exact h.acyclic

theorem Batch.descendant_cases {batch : Batch} (graph : Graph yard) (valid : batch.Valid yard)
    {rank : String → Nat}
    (ranked : ∀ child parent, (child, parent) ∈ batch.edges → parent ∈ batch.ids →
      rank parent < rank child)
    {root id : String} (h : (batch.apply yard).Descendant root id) :
    yard.Descendant root id ∨ id ∈ batch.ids ∧ (root ∈ batch.ids → rank root < rank id) := by
  have hnew : ∀ {child parent}, (child, parent) ∈ batch.edges → child ∈ batch.ids := by
    intro child parent hedge
    obtain ⟨row, hmem, _⟩ := valid.child child parent hedge
    exact Batch.mem_ids.mpr ⟨row, hmem⟩
  have hold : ∀ {found row}, yard.jobs.get? found = some row → found ∉ batch.ids := by
    intro found row hrow hmem
    rw [valid.fresh found hmem] at hrow
    cases hrow
  unfold Yard.Descendant at h
  induction h with
  | single hedge =>
    rcases (Batch.dependsOn_apply batch).mp hedge with hedge | hedge
    · exact .inl (.single hedge)
    · exact .inr ⟨hnew hedge, ranked _ _ hedge⟩
  | @tail middle child _ hedge ih =>
    rcases (Batch.dependsOn_apply batch).mp hedge with hedge | hedge
    · rcases ih with hpath | ⟨hmiddle, _⟩
      · exact .inl (hpath.tail hedge)
      · obtain ⟨_, upstream, _, hupstream, _⟩ := graph.ends child middle hedge
        exact (hold hupstream hmiddle).elim
    · refine .inr ⟨hnew hedge, ?_⟩
      intro hroot
      rcases ih with hpath | ⟨hmiddle, hrank⟩
      · obtain ⟨row, hrow⟩ := Yard.Descendant.exists_root graph hpath
        exact (hold hrow hroot).elim
      · exact (hrank hroot).trans (ranked _ _ hedge hmiddle)

theorem Graph.admission {batch : Batch} (h : Graph yard) (valid : batch.Valid yard) :
    Graph (batch.apply yard) where
  ends := by
    intro child parent hedge
    rcases (Batch.dependsOn_apply batch).mp hedge with hedge | hedge
    · obtain ⟨row, upstream, hrow, hupstream, htenant⟩ := h.ends child parent hedge
      exact ⟨row, upstream, Batch.get?_apply_old batch hrow,
        Batch.get?_apply_old batch hupstream, htenant⟩
    · obtain ⟨row, hmem, upstream, hupstream, htenant⟩ := valid.child child parent hedge
      refine ⟨row, upstream, Batch.get?_apply_new valid hmem, ?_, htenant⟩
      rcases hupstream with hupstream | hupstream
      · exact Batch.get?_apply_old batch hupstream
      · exact Batch.get?_apply_new valid hupstream
  acyclic := by
    intro id hcycle
    obtain ⟨rank, ranked⟩ := valid.ranked
    rcases Batch.descendant_cases h valid ranked hcycle with hpath | ⟨hid, hrank⟩
    · exact h.acyclic id hpath
    · exact lt_irrefl _ (hrank hid)

theorem Graph.micro (yard yard' : Yard) (h : Graph yard) (hstep : Micro policy yard yard') :
    Graph yard' := by
  have hevolves := hstep.evolves
  cases hstep with
  | tenant => exact h.of_later rfl hevolves.jobs
  | queue => exact h.of_later rfl hevolves.jobs
  | admission batch valid => exact h.admission valid
  | heartbeat => exact h.of_later rfl hevolves.jobs
  | note => exact h.of_later rfl hevolves.jobs
  | move move valid => exact h.of_later rfl hevolves.jobs

def Demanding (row : JobRow) : Prop :=
  0 < row.readySeq ∨ row.state ∈ [.scheduled, .running, .retrying, .succeeded] ∨ 0 < row.attemptNo

def Gated (yard : Yard) : Prop :=
  ∀ id row, yard.jobs.get? id = some row → Demanding row → yard.ParentsSucceeded id

theorem Yard.ParentsSucceeded.evolves (graph : Graph yard) (hevolves : Evolves yard yard')
    {id : String} (hrow : yard.jobs.get? id = some row) (h : yard.ParentsSucceeded id) :
    yard'.ParentsSucceeded id := by
  intro parent upstream' hedge hupstream'
  rw [hevolves.edges id parent row hrow] at hedge
  obtain ⟨_, upstream, _, hupstream, _⟩ := graph.ends id parent hedge
  have hstate := h parent upstream hedge hupstream
  rw [hevolves.terminal hupstream (by rw [hstate]; rfl), Option.some.injEq] at hupstream'
  rw [← hupstream', hstate]

theorem demanding_of_leased (h : row.state.leased = true) : Demanding row := by
  right
  left
  cases hstate : row.state <;> rw [hstate] at h <;> first | cases h; done | simp

theorem Move.demanding_of_unsuccessful {move : Move} (valid : move.Valid policy yard)
    (fences : Fences yard) (same : SameLease move.row move.next)
    (hstate : move.next.state.unsuccessful = true) (h : Demanding move.next) :
    Demanding move.row := by
  rcases h with hready | hnamed | hattempt
  · obtain ⟨_, _, hpending⟩ := fences.ready move.id move.row valid.found
    cases valid.readiness with
    | drawn pending => rw [pending] at hstate; cases hstate
    | kept busy _ seq => exact (busy (hpending (seq ▸ hready))).elim
    | dropped _ seq => omega
  · cases hnext : move.next.state <;> rw [hnext] at hstate hnamed <;>
      first | exact absurd hstate (by decide) | exact absurd hnamed (by decide)
  · rw [same.attemptNo] at hattempt
    exact .inr (.inr hattempt)

theorem Gated.move_self {move : Move} (h : Gated yard) (fences : Fences yard)
    (valid : move.Valid policy yard) (gated : policy.gated) (hnext : Demanding move.next) :
    yard.ParentsSucceeded move.id := by
  have hbefore := h move.id move.row valid.found
  cases valid.kind with
  | lease _ _ ready => exact hbefore (.inl ready)
  | start _ scheduled => exact hbefore (demanding_of_leased (by rw [scheduled]; rfl))
  | close _ leased => exact hbefore (demanding_of_leased leased)
  | ready _ _ parents => exact parents
  | override _ target gate same =>
    rcases target with target | target
    · exact gate gated target
    · exact hbefore (Move.demanding_of_unsuccessful valid fences same target hnext)
  | cascade _ _ dead _ same =>
    exact hbefore (Move.demanding_of_unsuccessful valid fences same (by rw [dead]; rfl) hnext)

theorem Gated.micro (gated : policy.gated) (yard yard' : Yard) (h : Gated yard)
    (graph : Graph yard) (fences : Fences yard) (hstep : Micro policy yard yard') :
    Gated yard' := by
  have hevolves := hstep.evolves
  have hold : ∀ id row, yard.jobs.get? id = some row → Demanding row → yard'.ParentsSucceeded id :=
    fun id row hrow hdemand => (h id row hrow hdemand).evolves graph hevolves hrow
  cases hstep with
  | tenant => exact hold
  | queue => exact hold
  | admission batch valid =>
    intro id row hrow hdemand
    rcases Batch.get?_apply_cases valid hrow with ⟨hmem, hnone⟩ | ⟨_, hrow⟩
    · have hnew := valid.rows id row hmem
      have hready : 0 < row.readySeq := by
        rcases hdemand with hready | hnamed | hattempt
        · exact hready
        · rcases hnew.state with hstate | hstate <;> rw [hstate] at hnamed <;> simp at hnamed
        · rw [hnew.attemptNo] at hattempt
          omega
      intro parent upstream hedge hupstream
      rcases (Batch.dependsOn_apply batch).mp hedge with hedge | hedge
      · obtain ⟨_, _, hchild, _⟩ := graph.ends id parent hedge
        rw [hnone] at hchild
        cases hchild
      · refine valid.gated id parent row upstream hedge hmem ?_ hready
        rcases Batch.get?_apply_cases valid hupstream with ⟨hparent, _⟩ | ⟨_, hparent⟩
        · exact .inr hparent
        · exact .inl hparent
    · exact hold id row hrow hdemand
  | heartbeat => exact hold
  | note => exact hold
  | move move valid =>
    intro id row hrow hdemand
    rcases Move.get?_apply_cases valid hrow with ⟨rfl, rfl⟩ | ⟨_, hrow⟩
    · exact (h.move_self fences valid gated hdemand).evolves graph hevolves valid.found
    · exact hold id row hrow hdemand

def Propagated (yard : Yard) : Prop :=
  ∀ child parent row upstream, yard.DependsOn child parent → yard.jobs.get? child = some row →
    yard.jobs.get? parent = some upstream → upstream.state.unsuccessful = true →
    row.state.terminal = true

theorem CascadeMove.edges (h : CascadeMove policy root yard yard') : yard'.edges = yard.edges := by
  obtain ⟨move, _, _, _, _, rfl⟩ := h
  rfl

theorem edges_of_cascade (h : ReflTransGen (CascadeMove policy root) yard yard') :
    yard'.edges = yard.edges := by
  induction h with
  | refl => rfl
  | tail _ hlast ih => exact hlast.edges.trans ih

theorem attempts_of_cascade (h : ReflTransGen (CascadeMove policy root) yard yard') :
    yard'.attempts = yard.attempts := by
  induction h with
  | refl => rfl
  | tail _ hlast ih =>
    obtain ⟨move, _, _, _, hkept, rfl⟩ := hlast
    exact hkept.trans ih

theorem descendant_of_edges (h : yard'.edges = yard.edges) :
    yard'.Descendant = yard.Descendant := by
  unfold Yard.Descendant Yard.DependsOn
  rw [h]

theorem jobs_of_cascade (h : ReflTransGen (CascadeMove policy root) yard yard') {id : String}
    (hrow : yard'.jobs.get? id = some row) :
    yard.jobs.get? id = some row ∨ yard.Descendant root id ∧ row.state = .deadLetter := by
  induction h generalizing row with
  | refl => exact .inl hrow
  | tail hpath hlast ih =>
    obtain ⟨move, valid, hdead, hdescendant, _, rfl⟩ := hlast
    rcases Move.get?_apply_cases valid hrow with ⟨rfl, rfl⟩ | ⟨_, hbefore⟩
    · rw [descendant_of_edges (edges_of_cascade hpath)] at hdescendant
      exact .inr ⟨hdescendant, hdead⟩
    · exact ih hbefore

theorem Propagated.fail {move : Move} (h : Propagated yard) (valid : move.Valid policy yard)
    (cascade : ReflTransGen (CascadeMove policy move.id) (move.apply yard) yard')
    (complete : ∀ id row, yard'.Descendant move.id id → yard'.jobs.get? id = some row →
      row.state.terminal = true) : Propagated yard' := by
  have hedges : yard'.edges = (move.apply yard).edges := edges_of_cascade cascade
  change yard'.edges = yard.edges at hedges
  have hevolves : Evolves yard yard' :=
    valid.evolves.trans (evolves_of_micros (ReflTransGen.mono (fun _ _ => CascadeMove.micro) _ _ cascade))
  intro child parent row upstream hedge hrow hupstream hfailed
  -- The parent had failed before, is the failed job itself, or fell with it.
  have hbelow : parent = move.id ∨ yard.Descendant move.id parent → row.state.terminal = true := by
    intro hparent
    apply complete child row _ hrow
    rcases hparent with rfl | hparent
    · exact .single hedge
    · rw [← descendant_of_edges hedges] at hparent
      exact hparent.tail hedge
  rcases jobs_of_cascade cascade hupstream with hbefore | ⟨hparent, _⟩
  · rcases Move.get?_apply_cases valid hbefore with ⟨hparent, _⟩ | ⟨_, hbefore⟩
    · exact hbelow (.inl hparent)
    · unfold Yard.DependsOn at hedge
      rw [hedges] at hedge
      cases hchild : yard.jobs.get? child with
      | none =>
        have hnone : (move.apply yard).jobs.get? child = none := by
          unfold Move.apply
          rw [Table.get?_modify, valid.found, hchild]
          split
          · rename_i heq
            rw [heq, valid.found] at hchild
            cases hchild
          · rfl
        rcases jobs_of_cascade cascade hrow with hsome | ⟨hdescendant, _⟩
        · rw [hnone] at hsome
          cases hsome
        · rw [← descendant_of_edges (edges_of_cascade cascade)] at hdescendant
          exact complete child row hdescendant hrow
      | some before =>
        have hterminal := h child parent before upstream hedge hchild hbefore hfailed
        rw [hevolves.terminal hchild hterminal, Option.some.injEq] at hrow
        rwa [← hrow]
  · exact hbelow (.inr hparent)

theorem Propagated.step (yard yard' : Yard) (h : Propagated yard) (graph : Graph yard)
    (hstep : Step policy yard yard') : Propagated yard' := by
  cases hstep with
  | fail move valid cascade complete => exact h.fail valid cascade complete
  | micro hmicro quiet =>
    have hevolves := hmicro.evolves
    -- Both ends of an old edge keep what they were.
    have hold : ∀ child parent row upstream, yard.DependsOn child parent →
        yard'.jobs.get? child = some row → yard'.jobs.get? parent = some upstream →
        upstream.state.unsuccessful = true → row.state.terminal = true := by
      intro child parent row upstream hedge hrow hupstream hfailed
      obtain ⟨before, source, hbefore, hsource, _⟩ := graph.ends child parent hedge
      rcases quiet parent upstream hupstream hfailed with hsame | hnone
      · have hterminal := h child parent before upstream hedge hbefore hsame hfailed
        rw [hevolves.terminal hbefore hterminal, Option.some.injEq] at hrow
        rwa [← hrow]
      · rw [hsource] at hnone
        cases hnone
    cases hmicro with
    | tenant => exact hold
    | queue => exact hold
    | admission batch valid =>
      intro child parent row upstream hedge hrow hupstream hfailed
      rcases (Batch.dependsOn_apply batch).mp hedge with hedge | hedge
      · exact hold child parent row upstream hedge hrow hupstream hfailed
      · obtain ⟨admitted, hmem, _⟩ := valid.child child parent hedge
        rw [Batch.get?_apply_new valid hmem, Option.some.injEq] at hrow
        rw [← hrow]
        apply deadLetter_terminal
        refine valid.failed child parent admitted upstream hedge hmem ?_ hfailed
        rcases Batch.get?_apply_cases valid hupstream with ⟨hparent, _⟩ | ⟨_, hparent⟩
        · exact .inr hparent
        · exact .inl hparent
    | heartbeat => exact hold
    | note => exact hold
    | move move valid => exact hold

end RailYard.Lifecycle
