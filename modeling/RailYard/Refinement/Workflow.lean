import RailYard.Refinement.Admission

/-! Admission of a workflow. The loop inserts one job for each node and opens
queues in between; put together, the jobs, their edges and their events are one
batch, and Kahn's check ranks it. -/
namespace RailYard.Refinement
open Library Library.Transaction Domain Store
open Lifecycle Relation

section Validation

theorem resolveParents_ok {keys : List String} {parents : List Nat} (hseen : seen.Nodup)
    (hbound : ∀ parent ∈ seen, parent < keys.length)
    (h : resolveParents keys nodeKey seen names = .ok parents) :
    parents.Nodup ∧ ∀ parent ∈ parents, parent < keys.length := by
  induction names generalizing seen with
  | nil =>
    cases h
    exact ⟨hseen, hbound⟩
  | cons name rest ih =>
    unfold resolveParents at h
    split at h
    · cases h
    · rename_i parent hfound
      split at h
      · cases h
      · rename_i hnew
        refine ih ?_ ?_ h
        · rw [List.nodup_append]
          refine ⟨hseen, List.nodup_singleton parent, ?_⟩
          intro old hold other hother heq
          rw [List.mem_singleton.mp hother] at heq
          exact hnew (heq ▸ hold)
        · intro other hother
          rw [List.mem_append, List.mem_singleton] at hother
          rcases hother with hother | rfl
          · exact hbound other hother
          · exact (List.findIdx?_eq_some_iff_getElem.mp hfound).1

/-- A node whose tenant is set, which may be attempted and whose parents are
nodes, each named once. -/
structure ResolvedNode (tenantID : String) (count : Nat) (node : JobSpec × List Nat) : Prop where
  tenant : node.1.tenantID = tenantID
  maxAttempts : 0 < node.1.retry.maxAttempts
  nodup : node.2.Nodup
  bound : ∀ parent ∈ node.2, parent < count

theorem resolveNode_ok {keys : List String} (htenant : tenantID ≠ "")
    (h : resolveNode options tenantID keys node = .ok resolved) :
    ResolvedNode tenantID keys.length resolved := by
  obtain ⟨_, hvalidate, h⟩ := except_bind_ok h
  obtain ⟨parents, hparents, h⟩ := except_bind_ok h
  cases h
  have hretry := (JobSpec.maxAttempts_of_validate (mapError_ok hvalidate)).1
  rw [JobSpec.normalize_normalize] at hretry
  obtain ⟨hnodup, hbound⟩ := resolveParents_ok List.nodup_nil (fun _ hmem => by cases hmem) hparents
  exact ⟨if_neg htenant, hretry, hnodup, hbound⟩

theorem mapM_ok {α β : Type} {f : α → Except Error β} {motive : β → Prop}
    (hstep : ∀ item result, f item = .ok result → motive result) {items : List α}
    {results : List β} (h : items.mapM' f = .ok results) :
    results.length = items.length ∧ ∀ result ∈ results, motive result := by
  induction items generalizing results with
  | nil =>
    cases h
    exact ⟨rfl, fun _ hmem => by cases hmem⟩
  | cons item rest ih =>
    obtain ⟨result, hresult, h⟩ := except_bind_ok h
    obtain ⟨others, hothers, h⟩ := except_bind_ok h
    cases h
    obtain ⟨hlength, hall⟩ := ih hothers
    refine ⟨by rw [List.length_cons, List.length_cons, hlength], ?_⟩
    intro found hfound
    rcases List.mem_cons.mp hfound with rfl | hfound
    · exact hstep item found hresult
    · exact hall found hfound

structure ResolvedWorkflow (tenantID : String) (resolved : List (JobSpec × List Nat)) : Prop where
  node : ∀ node ∈ resolved, ResolvedNode tenantID resolved.length node
  ranked : ∃ rank : Nat → Nat, ∀ child node, resolved[child]? = some node →
    ∀ parent ∈ node.2, rank parent < rank child

theorem validateWorkflow_ok (htenant : tenantID ≠ "")
    (h : validateWorkflow options tenantID nodes = .ok resolved) :
    ResolvedWorkflow tenantID resolved := by
  unfold validateWorkflow at h
  split at h
  · cases h
  · obtain ⟨_, _, h⟩ := except_bind_ok h
    obtain ⟨found, hfound, h⟩ := except_bind_ok h
    split at h
    · cases h
    · rename_i hvisited
      cases h
      obtain ⟨hlength, hall⟩ := mapM_ok (fun _ _ => resolveNode_ok htenant) hfound
      rw [List.length_map, ← hlength] at hall
      refine ⟨hall, ?_⟩
      have hparents : ∀ child, Kahn.parents (resolved.map Prod.snd) child =
          (resolved[child]?.map Prod.snd).getD [] := by
        intro child
        unfold Kahn.parents
        rw [List.getD_eq_getElem?_getD, List.getElem?_map]
      have hnodup : ∀ child, (Kahn.parents (resolved.map Prod.snd) child).Nodup := by
        intro child
        rw [hparents]
        cases hnode : resolved[child]? with
        | none => exact List.nodup_nil
        | some node => exact (hall node (List.mem_of_getElem? hnode)).nodup
      have hcount : Kahn.visited (resolved.map Prod.snd) = (resolved.map Prod.snd).length := by
        rw [List.length_map, hlength]
        exact not_not.mp hvisited
      obtain ⟨rank, hrank⟩ := Kahn.exists_rank_of_visited hnodup hcount
      refine ⟨rank, ?_⟩
      intro child node hnode parent hparent
      apply hrank child
      · rw [List.length_map]
        exact (List.getElem?_eq_some_iff.mp hnode).1
      · rw [hparents, hnode]
        exact hparent

end Validation

structure NodeJob (tenantID : String) (yard yard' : Yard) (id : String)
    (node : JobSpec × List Nat) (job : Job) : Prop where
  id : job.id = id
  tenant : job.tenantID = node.1.tenantID
  state : job.state = .pending
  attemptNo : job.attemptNo = 0
  stateVersion : job.stateVersion = 1
  leaseGeneration : job.leaseGeneration = 0
  slotCost : 0 < job.slotCost
  retry : job.retry = node.1.retry
  queue : (yard'.queueSlots (tenantID, job.queue)).isSome
  readySeq : job.readySeq = 0 ∨
    node.2 = [] ∧ yard.readySeq < job.readySeq ∧ job.readySeq ≤ yard'.readySeq

structure Enrolled (tenantID : String) (entropy : Nat → Entropy) (index : Nat)
    (nodes : List (JobSpec × List Nat)) (jobs : List Job) (yard yard' : Yard) : Prop where
  opens : Opens yard.queueSlots yard'.queueSlots
  counter : yard.readySeq ≤ yard'.readySeq
  yard_eq : yard' = { yard with
    jobs := yard.jobs.insertAll (jobs.map fun job => (job.id, Job.toRow job))
    queueSlots := yard'.queueSlots
    readySeq := yard'.readySeq }
  nodup : (jobs.map Job.id).Nodup
  fresh : ∀ job ∈ jobs, yard.jobs.get? job.id = none
  length : jobs.length = nodes.length
  places : jobs.Pairwise fun first second =>
    0 < second.readySeq → first.readySeq < second.readySeq
  node : ∀ offset node job, nodes[offset]? = some node → jobs[offset]? = some job →
    NodeJob tenantID yard yard' (newID (entropy (index + offset))) node job

theorem Enrolled.behind {index : Nat} {jobs : List Job}
    (enrolled : Enrolled tenantID entropy index nodes jobs yard yard') (hjob : job ∈ jobs)
    (hready : 0 < job.readySeq) :
    yard.readySeq < job.readySeq := by
  obtain ⟨offset, hoffset⟩ := List.mem_iff_getElem?.mp hjob
  have hbound : offset < nodes.length :=
    enrolled.length ▸ (List.getElem?_eq_some_iff.mp hoffset).1
  have hnode := enrolled.node offset nodes[offset] job (List.getElem?_eq_getElem hbound) hoffset
  rcases hnode.readySeq with hzero | ⟨_, hlow, _⟩
  · omega
  · exact hlow

theorem admitNode_ok {id : String} {parents : List Nat}
    (h : admitNode tenantID now id spec parents db = .ok job db') :
    ∃ slots, Opens (yardOf db).queueSlots slots ∧
      (yardOf db).readySeq ≤ (yardOf db').readySeq ∧
      (yardOf db).jobs.get? job.id = none ∧
      yardOf db' = { yardOf db with
        jobs := (yardOf db).jobs.insert job.id (Job.toRow job)
        queueSlots := slots
        readySeq := (yardOf db').readySeq } ∧
      NodeJob tenantID (yardOf db) (yardOf db') id (spec, parents) job := by
  obtain ⟨_, db1, hqueue, h⟩ := bind_ok h
  obtain ⟨slots, hopens, hslot, hyard1⟩ := ensureQueue_ok hqueue
  obtain ⟨seq, db2, hdraw, h⟩ := bind_ok h
  obtain ⟨hyard2, hcounter, hseq⟩ := readySeqIf_ok hdraw
  obtain ⟨_, db3, hinsert, h⟩ := bind_ok h
  obtain ⟨hcost, hfresh, hyard3⟩ := insertJob_ok hinsert
  obtain ⟨rfl, rfl⟩ := pure_ok h
  have hcounter1 : (yardOf db1).readySeq = (yardOf db).readySeq := by rw [hyard1]
  have hcounter3 : (yardOf db3).readySeq = (yardOf db2).readySeq := by rw [hyard3]
  have hslots3 : (yardOf db3).queueSlots = slots := by rw [hyard3, hyard2, hyard1]
  rw [hcounter1] at hcounter hseq
  rw [hyard2, hyard1] at hfresh
  refine ⟨slots, hopens, by rw [hcounter3]; exact hcounter, hfresh, ?_, ?_⟩
  · rw [hcounter3, hyard3, hyard2, hyard1]
  · refine ⟨rfl, rfl, rfl, rfl, rfl, rfl, hcost, rfl, by rw [hslots3]; exact hslot, ?_⟩
    rw [hcounter3]
    rcases hseq with hseq | ⟨⟨hempty, _⟩, hseq⟩
    · exact .inl hseq
    · exact .inr ⟨List.isEmpty_iff.mp hempty, hseq⟩

theorem admitNodes_ok {index : Nat} {jobs : List Job}
    (h : admitNodes tenantID now entropy index nodes db = .ok jobs db') :
    Enrolled tenantID entropy index nodes jobs (yardOf db) (yardOf db') := by
  induction nodes generalizing index db jobs with
  | nil =>
    obtain ⟨rfl, rfl⟩ := pure_ok h
    exact ⟨.refl, le_refl _, rfl, List.nodup_nil, fun _ hmem => (by cases hmem), rfl,
      .nil, fun _ _ _ hnode => (by cases hnode)⟩
  | cons node rest ih =>
    obtain ⟨job, db1, hjob, h⟩ := bind_ok h
    obtain ⟨others, db2, hothers, h⟩ := bind_ok h
    obtain ⟨rfl, rfl⟩ := pure_ok h
    obtain ⟨slots, hopens, hcounter, hfresh, hyard, hnode⟩ := admitNode_ok hjob
    have hrest := ih hothers
    have hslots : (yardOf db1).queueSlots = slots := by rw [hyard]
    have hjobs : (yardOf db1).jobs = (yardOf db).jobs.insert job.id (Job.toRow job) := by
      rw [hyard]
    -- The jobs that follow are new beside the one just inserted.
    have hlater : ∀ other ∈ others, other.id ≠ job.id ∧ (yardOf db).jobs.get? other.id = none := by
      intro other hother
      have habsent := hrest.fresh other hother
      rw [hjobs] at habsent
      by_cases hid : other.id = job.id
      · rw [hid, Table.get?_insert_self _ _ hfresh] at habsent
        cases habsent
      · rw [Table.get?_insert_ne _ _ hid] at habsent
        exact ⟨hid, habsent⟩
    constructor
    case opens => exact hopens.trans (hslots ▸ hrest.opens)
    case counter => exact hcounter.trans hrest.counter
    case yard_eq =>
      have hend := hrest.yard_eq
      rw [hyard] at hend
      exact hend
    case nodup =>
      refine List.nodup_cons.mpr ⟨?_, hrest.nodup⟩
      intro hmem
      obtain ⟨other, hother, heq⟩ := List.mem_map.mp hmem
      exact (hlater other hother).1 heq
    case fresh =>
      intro other hother
      rcases List.mem_cons.mp hother with rfl | hother
      · exact hfresh
      · exact (hlater other hother).2
    case length => rw [List.length_cons, List.length_cons, hrest.length]
    case places =>
      refine List.pairwise_cons.mpr ⟨fun other hother hready => ?_, hrest.places⟩
      have hbehind := hrest.behind hother hready
      rcases hnode.readySeq with hzero | ⟨_, _, hhigh⟩ <;> omega
    case node =>
      intro offset found other hfound hother
      cases offset with
      | zero =>
        cases hfound
        cases hother
        refine { hnode with queue := hrest.opens.isSome hnode.queue, readySeq := ?_ }
        rcases hnode.readySeq with hzero | ⟨hempty, hlow, hhigh⟩
        · exact .inl hzero
        · exact .inr ⟨hempty, hlow, hhigh.trans hrest.counter⟩
      | succ offset =>
        have hfollowing := hrest.node offset found other hfound hother
        refine { hfollowing with id := ?_, readySeq := ?_ }
        · rw [hfollowing.id]
          congr 2
          omega
        · rcases hfollowing.readySeq with hzero | ⟨hempty, hlow, hhigh⟩
          · exact .inl hzero
          · exact .inr ⟨hempty, hcounter.trans_lt hlow, hhigh⟩

theorem mem_workflowEdges {nodes : List (JobSpec × List Nat)} :
    (child, parent) ∈ workflowEdges entropy (nodes.map Prod.snd) ↔
      ∃ index node source, nodes[index]? = some node ∧ source ∈ node.2 ∧
        child = newID (entropy index) ∧ parent = newID (entropy source) := by
  unfold workflowEdges
  rw [List.mem_flatMap]
  constructor
  · rintro ⟨⟨parents, index⟩, hmem, hedge⟩
    rw [List.mem_zipIdx_iff_getElem?, List.getElem?_map, Option.map_eq_some_iff] at hmem
    obtain ⟨node, hnode, rfl⟩ := hmem
    obtain ⟨source, hsource, heq⟩ := List.mem_map.mp hedge
    cases heq
    exact ⟨index, node, source, hnode, hsource, rfl, rfl⟩
  · rintro ⟨index, node, source, hnode, hsource, rfl, rfl⟩
    refine ⟨(node.2, index), ?_, List.mem_map.mpr ⟨source, hsource, rfl⟩⟩
    rw [List.mem_zipIdx_iff_getElem?, List.getElem?_map, hnode]
    rfl

def workflowBatch (jobs : List Job) (edges : List (String × String)) (readySeq : Int) : Batch where
  jobs := jobs.map fun job => (job.id, Job.toRow job)
  edges := edges
  readySeq := readySeq

namespace Enrolled

variable {jobs : List Job} {edges : List (String × String)}

variable (enrolled : Enrolled tenantID entropy 0 nodes jobs yard yard')

include enrolled

theorem job_of_node {index : Nat} {node : JobSpec × List Nat} (hnode : nodes[index]? = some node) :
    ∃ job, jobs[index]? = some job ∧
      NodeJob tenantID yard yard' (newID (entropy index)) node job := by
  have hbound : index < jobs.length :=
    enrolled.length.symm ▸ (List.getElem?_eq_some_iff.mp hnode).1
  refine ⟨jobs[index], List.getElem?_eq_getElem hbound, ?_⟩
  have hjob := enrolled.node index node jobs[index] hnode (List.getElem?_eq_getElem hbound)
  rwa [Nat.zero_add] at hjob

theorem mem_of_node {index : Nat} {node : JobSpec × List Nat} (hnode : nodes[index]? = some node) :
    ∃ job, (newID (entropy index), Job.toRow job) ∈ (workflowBatch jobs edges readySeq).jobs ∧
      NodeJob tenantID yard yard' (newID (entropy index)) node job := by
  obtain ⟨job, hjob, hnodeJob⟩ := enrolled.job_of_node hnode
  exact ⟨job, List.mem_map.mpr ⟨job, List.mem_of_getElem? hjob, by rw [hnodeJob.id]⟩, hnodeJob⟩

theorem node_of_mem {id : String}
    {row : JobRow} (h : (id, row) ∈ (workflowBatch jobs edges readySeq).jobs) :
    ∃ index node job, nodes[index]? = some node ∧ id = newID (entropy index) ∧
      row = Job.toRow job ∧ NodeJob tenantID yard yard' (newID (entropy index)) node job := by
  obtain ⟨job, hjob, heq⟩ := List.mem_map.mp h
  cases heq
  obtain ⟨index, hindex⟩ := List.mem_iff_getElem?.mp hjob
  have hbound : index < nodes.length := enrolled.length ▸ (List.getElem?_eq_some_iff.mp hindex).1
  obtain ⟨found, hfound, hnodeJob⟩ := enrolled.job_of_node (List.getElem?_eq_getElem hbound)
  rw [hindex, Option.some.injEq] at hfound
  rw [← hfound] at hnodeJob
  exact ⟨index, nodes[index], job, List.getElem?_eq_getElem hbound, hnodeJob.id, rfl, hnodeJob⟩

theorem idxOf_id {index : Nat} (hindex : index < nodes.length) :
    (jobs.map Job.id).idxOf (newID (entropy index)) = index := by
  obtain ⟨job, hjob, hnodeJob⟩ := enrolled.job_of_node (List.getElem?_eq_getElem hindex)
  have hid : (jobs.map Job.id)[index]? = some (newID (entropy index)) := by
    rw [List.getElem?_map, hjob, ← hnodeJob.id]
    rfl
  obtain ⟨hbound, heq⟩ := List.getElem?_eq_some_iff.mp hid
  rw [← heq]
  exact enrolled.nodup.idxOf_getElem index hbound

theorem parent_pending {source : Nat} (hsource : source < nodes.length) {upstream : JobRow}
    (h : yard.jobs.get? (newID (entropy source)) = some upstream ∨
      (newID (entropy source), upstream) ∈ (workflowBatch jobs edges readySeq).jobs) :
    upstream.state = .pending := by
  rcases h with hold | hmem
  · obtain ⟨job, hjob, hnodeJob⟩ := enrolled.job_of_node (List.getElem?_eq_getElem hsource)
    rw [← hnodeJob.id, enrolled.fresh job (List.mem_of_getElem? hjob)] at hold
    cases hold
  · obtain ⟨_, _, _, _, _, rfl, hnodeJob⟩ := enrolled.node_of_mem hmem
    exact hnodeJob.state

theorem valid
    (resolved : ResolvedWorkflow tenantID nodes) (htenant : (yard.tenants.get? tenantID).isSome)
    (room : ∀ limits, yard.tenants.get? tenantID = some limits → 0 < limits.maxDepth →
      yard.depth tenantID + nodes.length ≤ limits.maxDepth) :
    (workflowBatch jobs (workflowEdges entropy (nodes.map Prod.snd)) yard'.readySeq).Valid
      { yard with queueSlots := yard'.queueSlots } := by
  constructor
  case nodup =>
    unfold Batch.ids workflowBatch
    rw [List.map_map]
    exact enrolled.nodup
  case fresh =>
    intro id hid
    unfold Batch.ids workflowBatch at hid
    rw [List.map_map, List.mem_map] at hid
    obtain ⟨job, hjob, rfl⟩ := hid
    exact enrolled.fresh job hjob
  case rows =>
    intro id row hmem
    obtain ⟨index, node, job, hnode, rfl, rfl, hjob⟩ := enrolled.node_of_mem hmem
    have hresolved := resolved.node node (List.mem_of_getElem? hnode)
    have htenantID : job.tenantID = tenantID := hjob.tenant.trans hresolved.tenant
    refine ⟨.inl hjob.state, fun hdead => ?_, hjob.attemptNo, hjob.stateVersion,
      hjob.leaseGeneration, hjob.slotCost, .inl ?_, ?_, ?_, ?_⟩
    · rw [show (Job.toRow job).state = .pending from hjob.state] at hdead
      cases hdead
    · rw [show (Job.toRow job).retry = node.1.retry from hjob.retry]
      exact hresolved.maxAttempts
    · change (yard.tenants.get? job.tenantID).isSome
      rw [htenantID]
      exact htenant
    · change (yard'.queueSlots (job.tenantID, job.queue)).isSome
      rw [htenantID]
      exact hjob.queue
    · rcases hjob.readySeq with hzero | ⟨_, hseq⟩
      · exact .inl hzero
      · exact .inr ⟨hjob.state, hseq⟩
  case counter => exact enrolled.counter
  case places => exact List.pairwise_map.mpr enrolled.places
  case depth =>
    intro id row limits hmem
    obtain ⟨index, node, job, hnode, rfl, rfl, hjob⟩ := enrolled.node_of_mem hmem
    have htenantID : job.tenantID = tenantID :=
      hjob.tenant.trans (resolved.node node (List.mem_of_getElem? hnode)).tenant
    change yard.tenants.get? job.tenantID = some limits → _ →
      yard.depth job.tenantID + (jobs.map _).length ≤ limits.maxDepth
    rw [htenantID, List.length_map, enrolled.length]
    exact room limits
  case child =>
    intro child parent hedge
    obtain ⟨index, node, source, hnode, hsource, rfl, rfl⟩ := mem_workflowEdges.mp hedge
    have hresolved := resolved.node node (List.mem_of_getElem? hnode)
    have hbound := hresolved.bound source hsource
    have hparent := resolved.node nodes[source] (List.getElem_mem hbound)
    obtain ⟨job, hmem, hjob⟩ := enrolled.mem_of_node hnode
    obtain ⟨upstream, hupstream, hother⟩ :=
      enrolled.mem_of_node (List.getElem?_eq_getElem hbound)
    refine ⟨Job.toRow job, hmem, Job.toRow upstream, .inr hupstream, ?_⟩
    exact (hother.tenant.trans hparent.tenant).trans (hjob.tenant.trans hresolved.tenant).symm
  case ranked =>
    obtain ⟨rank, hrank⟩ := resolved.ranked
    refine ⟨fun id => rank ((jobs.map Job.id).idxOf id), ?_⟩
    intro child parent hedge _
    obtain ⟨index, node, source, hnode, hsource, rfl, rfl⟩ := mem_workflowEdges.mp hedge
    dsimp only
    rw [enrolled.idxOf_id (List.getElem?_eq_some_iff.mp hnode).1,
      enrolled.idxOf_id ((resolved.node node (List.mem_of_getElem? hnode)).bound source hsource)]
    exact hrank index node hnode source hsource
  case failed =>
    intro child parent row upstream hedge _ hfound hfailed
    obtain ⟨index, node, source, hnode, hsource, rfl, rfl⟩ := mem_workflowEdges.mp hedge
    rw [enrolled.parent_pending
      ((resolved.node node (List.mem_of_getElem? hnode)).bound source hsource) hfound] at hfailed
    cases hfailed
  case gated =>
    intro child parent row upstream hedge hmem _ hready
    obtain ⟨index, node, source, hnode, hsource, rfl, rfl⟩ := mem_workflowEdges.mp hedge
    obtain ⟨other, found, job, hfound, heq, rfl, hjob⟩ := enrolled.node_of_mem hmem
    obtain rfl : index = other := by
      rw [← enrolled.idxOf_id (List.getElem?_eq_some_iff.mp hnode).1, heq,
        enrolled.idxOf_id (List.getElem?_eq_some_iff.mp hfound).1]
    rw [hnode, Option.some.injEq] at hfound
    subst hfound
    rcases hjob.readySeq with hzero | ⟨hempty, _⟩
    · rw [show (Job.toRow job).readySeq = 0 from hzero] at hready
      exact absurd hready (lt_irrefl _)
    · rw [hempty] at hsource
      cases hsource

end Enrolled

theorem announce_ok {storage : StorageClass} {payload : Job → EventPayload} {jobs : List Job}
    (h : jobs.forM (fun job => addEvent storage job.id .jobAdmitted job.state job.stateVersion now
      (payload job)) db = .ok () db') :
    yardOf db' = { yardOf db with
      history := admissions (jobs.map fun job => (job.id, Job.toRow job)) (yardOf db).history } := by
  induction jobs generalizing db with
  | nil =>
    obtain ⟨_, rfl⟩ := pure_ok h
    rfl
  | cons job rest ih =>
    obtain ⟨_, between, hjob, hrest⟩ := bind_ok h
    rw [ih hrest, addEvent_ok hjob]
    rfl

/-- Admission enrols the nodes and then only adds their edges and their events. -/
theorem admitWorkflow_enrols {jobs : List Job}
    (h : admitWorkflow options storage tenantID nodes actor entropy now db = .ok jobs db') :
    ∃ resolved db1 db2, validateWorkflow options tenantID nodes = .ok resolved ∧
      ensureAdmission options tenantID resolved.length db = .ok () db1 ∧
      admitNodes tenantID now entropy 0 resolved db1 = .ok jobs db2 ∧
      yardOf db' = { yardOf db2 with
        edges := (yardOf db2).edges.insertAll
          ((workflowEdges entropy (resolved.map Prod.snd)).map fun edge => (edge, ()))
        history :=
          admissions (jobs.map fun job => (job.id, Job.toRow job)) (yardOf db2).history } := by
  obtain ⟨resolved, hvalidate, h⟩ := lift_bind h
  obtain ⟨_, db1, hadmission, h⟩ := bind_ok h
  obtain ⟨_, db2, hnodes, h⟩ := bind_ok h
  obtain ⟨_, _, hedges, h⟩ := bind_ok h
  obtain ⟨_, _, hevents, h⟩ := bind_ok h
  obtain ⟨rfl, rfl⟩ := pure_ok h
  refine ⟨resolved, db1, db2, hvalidate, hadmission, hnodes, ?_⟩
  rw [announce_ok hevents, insertDependencies_ok id hedges]
  rfl

theorem admitWorkflow_ok {jobs : List Job} (policy : Policy) (htenant : tenantID ≠ "")
    (h : admitWorkflow options storage tenantID nodes actor entropy now db = .ok jobs db') :
    ReflTransGen (Step policy) (yardOf db) (yardOf db') := by
  obtain ⟨resolved, db1, db2, hvalidate, hadmission, hnodes, hyard⟩ := admitWorkflow_enrols h
  have hresolved := validateWorkflow_ok htenant hvalidate
  have enrolled := admitNodes_ok hnodes
  obtain ⟨tenants, hyard1, hexists, hroom, hsteps⟩ := ensureAdmission_ok policy hadmission
  have hexists1 : ((yardOf db1).tenants.get? tenantID).isSome := by rw [hyard1]; exact hexists
  have hroom1 : ∀ limits, (yardOf db1).tenants.get? tenantID = some limits →
      0 < limits.maxDepth → (yardOf db1).depth tenantID + resolved.length ≤ limits.maxDepth := by
    rw [hyard1]
    exact hroom
  have hopen : ReflTransGen (Step policy) (yardOf db1)
      { yardOf db1 with queueSlots := (yardOf db2).queueSlots } :=
    enrolled.opens.steps (yardOf db1)
  have hadmit : Step policy { yardOf db1 with queueSlots := (yardOf db2).queueSlots } _ :=
    admit_step (enrolled.valid hresolved hexists1 hroom1)
  rw [apply_of_pending] at hadmit
  · refine (hsteps.trans hopen).tail ?_
    rw [hyard, enrolled.yard_eq]
    exact hadmit
  · rintro ⟨id, row⟩ hmem
    obtain ⟨_, _, _, _, _, rfl, hjob⟩ := enrolled.node_of_mem hmem
    exact hjob.state

end RailYard.Refinement
