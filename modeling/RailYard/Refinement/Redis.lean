import RailYard.Library.Trace
import RailYard.Refinement.Registered
import RailYard.Server.Redis

/-! Deliveries of stream messages. Whoever delivers an entry submits it under the
same key, so all get the job that the key stands for, and a row of
`redis_deliveries` is written once. -/
namespace RailYard.Refinement
open Library Library.Transaction Domain Store Server
open Lifecycle

variable {env : Env} {options : Options} {now : Time} {db db' : Database}

section Deliveries

theorem aloof_redisDeliveries : Aloof Database.redisDeliveries := by
  refine { toApart := ?_, attempts := fun _ _ => rfl }
  constructor <;> intros <;> rfl

theorem outside_redisDeliveries {area : Area} (h : area ≠ .deliveries) :
    Outside Database.redisDeliveries area := by
  cases area with
  | deliveries => exact (h rfl).elim
  | _ =>
    dsimp only [Outside, Deaf]
    repeat' constructor
    all_goals intros; rfl

theorem deliveries_step {store : StoreState} {call : Call} (h : recordsDelivery call.op = false) :
    (step env store call).2.db.redisDeliveries = store.db.redisDeliveries := by
  refine step_preserves aloof_redisDeliveries (outside_redisDeliveries ?_)
  intro harea
  cases hop : call.op with
  | recordDelivery => rw [hop] at h; cases h
  | _ => rw [hop] at harea; cases harea

/-- No row of `redis_deliveries` is changed or deleted. -/
def DeliveriesKept (db db' : Database) : Prop :=
  ∀ key row, db.redisDeliveries.get? key = some row → db'.redisDeliveries.get? key = some row

theorem recordDelivery_ok (h : recordDelivery triggerID stream messageID jobID now db = .ok () db')
    :
    ∃ deliveries, db' = { db with redisDeliveries := deliveries } ∧ DeliveriesKept db db' ∧
      (∃ row, db'.redisDeliveries.get? (triggerID, stream, messageID) = some row ∧
        row.jobID = jobID) ∧
      ∀ key, key ≠ (triggerID, stream, messageID) →
        db'.redisDeliveries.get? key = db.redisDeliveries.get? key := by
  replace h := query_bind h
  obtain ⟨added, db1, hinsert, h⟩ := bind_ok h
  obtain ⟨_, h⟩ := require_bind h
  obtain ⟨row, hfound, h⟩ := found_bind h rfl
  obtain ⟨hjob, rfl⟩ := require_ok h
  rcases insertIfAbsent_ok hinsert with ⟨_, _, rfl⟩ | ⟨_, habsent, rfl⟩
  · exact ⟨db.redisDeliveries, rfl, fun _ _ hrow => hrow, ⟨row, hfound, hjob⟩, fun _ _ => rfl⟩
  · refine ⟨_, rfl, fun key old hold => Table.get?_insert_of_get? _ _ _ hold,
      ⟨row, hfound, hjob⟩, fun key hkey => Table.get?_insert_ne _ _ hkey⟩

theorem deliveriesKept_step (env : Env) (store : StoreState) (call : Call) :
    DeliveriesKept store.db (step env store call).2.db := by
  by_cases hcall : recordsDelivery call.op = true
  · rcases step_cases env store call with hsame | ⟨now, reply, _, _, hrun⟩
    · rw [hsame]
      exact fun _ _ hrow => hrow
    · cases hop : call.op with
      | recordDelivery triggerID stream messageID jobID deliveredAt =>
        rw [hop] at hrun
        obtain ⟨_, _, hrecord⟩ := bind_pure_ok hrun
        obtain ⟨_, _, hkept, _⟩ := recordDelivery_ok hrecord
        exact hkept
      | _ => rw [hop] at hcall; cases hcall
  · intro key row hrow
    rw [deliveries_step (Bool.eq_false_iff.mpr hcall), hrow]

theorem recordDelivery_succeeds (now : Time) (hjob : (db.jobs.get? jobID).isSome)
    (hrow : ∀ row, db.redisDeliveries.get? (triggerID, stream, messageID) = some row →
      row.jobID = jobID) :
    Succeeds (recordDelivery triggerID stream messageID jobID now) db := by
  refine .bind (.query _) fun target _ hquery => ?_
  obtain ⟨rfl, rfl⟩ := query_ok hquery
  refine .bind (.insertIfAbsent _) fun added db1 hinsert => ?_
  refine .bind (.require fun _ => hjob) fun _ _ hrequire => ?_
  obtain ⟨_, rfl⟩ := require_ok hrequire
  refine .bind ⟨_, _, select_run _ _ _⟩ fun found _ hselect => ?_
  obtain ⟨hfound, rfl⟩ := select_ok hselect
  have hexists : ∃ row, found = some row ∧ row.jobID = jobID := by
    rcases insertIfAbsent_ok hinsert with ⟨_, ⟨row, hold⟩, rfl⟩ | ⟨_, habsent, rfl⟩
    · exact ⟨row, hfound.symm.trans hold, hrow row hold⟩
    · exact ⟨_, hfound.symm.trans (Table.get?_insert_self _ _ habsent), rfl⟩
  obtain ⟨row, rfl, hid⟩ := hexists
  exact .require hid

end Deliveries

section Consumers

variable {contents : String → String → RedisValue} {store store' : StoreState}
  {state : RedisState}

structure Lasting (db db' : Database) : Prop where
  requests : Kept db db'
  jobs : JobsKept db db'
  deliveries : DeliveriesKept db db'

theorem Lasting.same (h : db' = db) : Lasting db db' := by
  rw [h]
  exact ⟨fun _ _ hrow => hrow, refl_of JobsKept db, fun _ _ hrow => hrow⟩

theorem Lasting.trans (h : Lasting db db') (h' : Lasting db' db'') : Lasting db db'' where
  requests key row hrow := h'.requests key row (h.requests key row hrow)
  jobs := trans_of JobsKept h.jobs h'.jobs
  deliveries key row hrow := h'.deliveries key row (h.deliveries key row hrow)

theorem lasting_step (env : Env) (store : StoreState) (call : Call) :
    Lasting store.db (step env store call).2.db :=
  ⟨kept_step env store call, jobsKept_step env store call, deliveriesKept_step env store call⟩

theorem lasting_run (env : Env) (store : StoreState) (activities : List Activity) :
    Lasting store.db (run env store activities).db :=
  run_related Lasting (fun _ => .same rfl) Lasting.trans (lasting_step env) store activities

theorem lasting_recordDelivery
    (h : recordDelivery triggerID stream messageID jobID now db = .ok () db') : Lasting db db' := by
  obtain ⟨deliveries, rfl, hkept, _⟩ := recordDelivery_ok h
  exact ⟨fun _ _ hrow => hrow, refl_of JobsKept _, hkept⟩

def deliveryOf (contents : String → String → RedisValue) (entry : String × String × String) :
    RedisDelivery :=
  ⟨entry.1, entry.2.1, entry.2.2, contents entry.2.1 entry.2.2⟩

def Linked (env : Env) (contents : String → String → RedisValue) (db : Database)
    (entry : String × String × String) (jobID : String) : Prop :=
  ∃ submission, redisSubmission env (deliveryOf contents entry) = .ok submission ∧
    registered db (submissionKey submission) = some jobID

theorem Linked.lasts {entry : String × String × String} (h : Linked env contents db entry jobID)
    (lasting : Lasting db db') :
    Linked env contents db' entry jobID := by
  obtain ⟨submission, hsubmission, hjob⟩ := h
  exact ⟨submission, hsubmission, registered_kept lasting.requests hjob⟩

theorem Linked.unique {entry : String × String × String} (h : Linked env contents db entry jobID)
    (h' : Linked env contents db entry jobID') :
    jobID' = jobID := by
  obtain ⟨submission, hsubmission, hjob⟩ := h
  obtain ⟨submission', hsubmission', hjob'⟩ := h'
  rw [hsubmission] at hsubmission'
  cases hsubmission'
  rw [hjob] at hjob'
  exact (Option.some.inj hjob').symm

def Committed (db : Database) (entry : String × String × String) : Prop :=
  ∃ row, db.redisDeliveries.get? entry = some row ∧ (db.jobs.get? row.jobID).isSome

theorem Committed.lasts {entry : String × String × String} (h : Committed db entry)
    (lasting : Lasting db db') : Committed db' entry := by
  obtain ⟨row, hrow, hjob⟩ := h
  exact ⟨row, lasting.deliveries entry row hrow, lasting.jobs row.jobID hjob⟩

def StageSound (env : Env) (contents : String → String → RedisValue) (db : Database)
    (entry : String × String × String) : Stage → Prop
  | .received => True
  | .submitted jobID _ => Linked env contents db entry jobID
  | .delivered => Committed db entry

theorem StageSound.lasts {entry : String × String × String}
    (h : StageSound env contents db entry stage) (lasting : Lasting db db') :
    StageSound env contents db' entry stage := by
  cases stage with
  | received => trivial
  | submitted jobID now => exact Linked.lasts h lasting
  | delivered => exact Committed.lasts h lasting

structure HandlingSound (env : Env) (contents : String → String → RedisValue) (db : Database)
    (handling : Handling) : Prop where
  fixed : ∀ message ∈ handling.messages, message.job = contents handling.stream message.id
  stage : ∀ message rest, handling.messages = message :: rest →
    StageSound env contents db (handling.triggerID, handling.stream, message.id) handling.stage

theorem HandlingSound.lasts (h : HandlingSound env contents db handling) (lasting : Lasting db db')
    : HandlingSound env contents db' handling :=
  ⟨h.fixed, fun message rest hmessages => (h.stage message rest hmessages).lasts lasting⟩

theorem HandlingSound.stop (env : Env) (contents : String → String → RedisValue) (db : Database)
    (handling : Handling) : HandlingSound env contents db handling.stop where
  fixed _ hmessage := nomatch hmessage
  stage _ _ hmessages := nomatch hmessages

def SameReceipt (receipt receipt' : Receipt) : Prop :=
  receipt.entry = receipt'.entry → receipt'.jobID = receipt.jobID ∧ receipt'.duplicate = true

structure RedisSound (env : Env) (contents : String → String → RedisValue) (state : RedisState) :
    Prop where
  registry : Registry state.store.db
  handlings : ∀ handling ∈ state.handlings, HandlingSound env contents state.store.db handling
  receipts : ∀ receipt ∈ state.receipts,
    Linked env contents state.store.db receipt.entry receipt.jobID
  once : state.receipts.Pairwise SameReceipt
  deliveries : ∀ entry row, state.store.db.redisDeliveries.get? entry = some row →
    Linked env contents state.store.db entry row.jobID
  acks : ∀ entry ∈ state.acks, Committed state.store.db entry

/-- What an event does: nothing, what another call does, or a step of one of the
consumers. -/
inductive RedisStep (env : Env) (contents : String → String → RedisValue) (state : RedisState) :
    RedisEvent → RedisState → Prop
  | idle event : RedisStep env contents state event state
  | call call (other : recordsDelivery call.op = false) :
      RedisStep env contents state (.call call) { state with store := (step env state.store call).2 }
  | receive triggerID stream ids : RedisStep env contents state (.receive triggerID stream ids)
      (state.advance env contents (.receive triggerID stream ids))
  | refused {index triggerID stream message rest now elapsed entropy failed}
      (handling : state.handlings[index]? = some ⟨triggerID, stream, message :: rest, .received⟩)
      (same : failed.db = state.store.db) :
      RedisStep env contents state (.submit index now elapsed entropy)
        (state.put failed index (Handling.stop ⟨triggerID, stream, message :: rest, .received⟩))
  | submitted {index triggerID stream message rest now elapsed entropy submission job duplicate
        submitted}
      (handling : state.handlings[index]? = some ⟨triggerID, stream, message :: rest, .received⟩)
      (decoded : redisSubmission env (message.delivery triggerID stream) = .ok submission)
      (perform : state.store.perform ⟨now, elapsed⟩
        (submitJob state.store.options submission entropy) = (.ok (job, duplicate), submitted)) :
      RedisStep env contents state (.submit index now elapsed entropy)
        { state.put submitted index ⟨triggerID, stream, message :: rest, .submitted job.id now⟩ with
          receipts := state.receipts ++ [⟨(triggerID, stream, message.id), job.id, duplicate⟩] }
  | failed {index triggerID stream message rest jobID now}
      (handling : state.handlings[index]? =
        some ⟨triggerID, stream, message :: rest, .submitted jobID now⟩) :
      RedisStep env contents state (.record index) (state.put state.store index
        (Handling.stop ⟨triggerID, stream, message :: rest, .submitted jobID now⟩))
  | recorded {index triggerID stream message rest jobID now recorded}
      (handling : state.handlings[index]? =
        some ⟨triggerID, stream, message :: rest, .submitted jobID now⟩)
      (run : recordDelivery triggerID stream message.id jobID now state.store.db =
        .ok () recorded.db) :
      RedisStep env contents state (.record index)
        (state.put recorded index ⟨triggerID, stream, message :: rest, .delivered⟩)
  | acknowledged {index triggerID stream message rest} answered
      (handling : state.handlings[index]? = some ⟨triggerID, stream, message :: rest, .delivered⟩) :
      RedisStep env contents state (.acknowledge index answered)
        { state.put state.store index (if answered then ⟨triggerID, stream, rest, .received⟩
            else Handling.stop ⟨triggerID, stream, rest, .received⟩) with
          acks := state.acks ++ [(triggerID, stream, message.id)] }
  | crash index : RedisStep env contents state (.crash index)
      (state.advance env contents (.crash index))

theorem redisStep (env : Env) (contents : String → String → RedisValue) (state : RedisState)
    (event : RedisEvent) :
    RedisStep env contents state event (state.advance env contents event) := by
  cases event with
  | call call =>
    rw [RedisState.advance]
    split
    · exact .idle _
    · rename_i hcall
      exact .call call (Bool.eq_false_iff.mpr hcall)
  | receive triggerID stream ids => exact .receive triggerID stream ids
  | submit index now elapsed entropy =>
    rw [RedisState.advance]
    unfold submitMessage
    split
    · rename_i hhandling
      dsimp only
      split
      · exact .refused hhandling rfl
      · rename_i hsubmission
        split
        · rename_i hperform
          exact .refused hhandling (perform_error hperform)
        · rename_i hperform
          exact .submitted hhandling hsubmission hperform
    · exact .idle _
  | record index =>
    rw [RedisState.advance]
    unfold recordMessage
    split
    · rename_i hhandling
      dsimp only
      split
      · rename_i htransact
        obtain ⟨_, rfl⟩ := transact_error htransact
        exact .failed hhandling
      · rename_i htransact
        exact .recorded hhandling (transact_ok htransact).1
    · exact .idle _
  | acknowledge index answered =>
    rw [RedisState.advance]
    unfold acknowledgeMessage
    split
    · rename_i hhandling
      exact .acknowledged answered hhandling
    · exact .idle _
  | crash index => exact .crash index

theorem RedisSound.put (h : RedisSound env contents state) (index : Nat)
    (lasting : Lasting state.store.db store'.db) (registry : Registry store'.db)
    (hhandling : HandlingSound env contents store'.db handling)
    (deliveries : ∀ entry row, store'.db.redisDeliveries.get? entry = some row →
      Linked env contents store'.db entry row.jobID) :
    RedisSound env contents (state.put store' index handling) where
  registry := registry
  handlings other hother := by
    rcases List.mem_or_eq_of_mem_set hother with hold | rfl
    · exact (h.handlings other hold).lasts lasting
    · exact hhandling
  receipts receipt hreceipt := (h.receipts receipt hreceipt).lasts lasting
  once := h.once
  deliveries := deliveries
  acks entry hentry := (h.acks entry hentry).lasts lasting

theorem RedisSound.submitted (h : RedisSound env contents state) {index : Nat}
    {triggerID stream : String} {message : XMessage} {rest : List XMessage} {elapsed : Int}
    {entropy : Entropy} {submission : Submission} {job : Job} {duplicate : Bool}
    (hhandling : state.handlings[index]? = some ⟨triggerID, stream, message :: rest, .received⟩)
    (hsubmission : redisSubmission env (message.delivery triggerID stream) = .ok submission)
    (hperform : state.store.perform ⟨now, elapsed⟩
      (submitJob state.store.options submission entropy) = (.ok (job, duplicate), store')) :
    RedisSound env contents
      { state.put store' index ⟨triggerID, stream, message :: rest, .submitted job.id now⟩ with
        receipts := state.receipts ++ [⟨(triggerID, stream, message.id), job.id, duplicate⟩] } := by
  have hsubmitted := perform_submitted h.registry hperform
  have hstep := perform_submitJob env hperform
  have lasting : Lasting state.store.db store'.db := by
    rw [hstep]
    exact lasting_step env _ _
  have hsound := h.handlings _ (List.mem_of_getElem? hhandling)
  have hdelivery : redisSubmission env (deliveryOf contents (triggerID, stream, message.id)) =
      .ok submission := by
    rw [← hsubmission]
    unfold deliveryOf XMessage.delivery
    rw [hsound.fixed message (List.mem_cons_self ..)]
  have hlinked : Linked env contents store'.db (triggerID, stream, message.id) job.id :=
    ⟨submission, hdelivery, hsubmitted.registered⟩
  have hput : RedisSound env contents (state.put store' index
      ⟨triggerID, stream, message :: rest, .submitted job.id now⟩) := by
    refine h.put index lasting ?_ ⟨hsound.fixed, ?_⟩ ?_
    · rw [hstep]
      exact h.registry.step env _
    · rintro _ _ ⟨⟩
      exact hlinked
    · intro entry row hrow
      rw [hstep, deliveries_step rfl] at hrow
      exact (h.deliveries entry row hrow).lasts lasting
  refine { hput with receipts := ?_, once := ?_ }
  · refine List.forall_mem_append.mpr ⟨hput.receipts, ?_⟩
    rw [List.forall_mem_singleton]
    exact hlinked
  · rw [List.pairwise_append]
    refine ⟨h.once, List.pairwise_singleton _ _, ?_⟩
    intro earlier hearlier later hlater hentry
    rw [List.mem_singleton] at hlater
    subst hlater
    obtain ⟨found, hfound, hjob⟩ := h.receipts earlier hearlier
    rw [hentry, hdelivery] at hfound
    cases hfound
    exact hsubmitted.unique hjob

theorem RedisSound.recorded (h : RedisSound env contents state) {index : Nat}
    (hhandling : state.handlings[index]? =
      some ⟨triggerID, stream, message :: rest, .submitted jobID now⟩)
    (hrun : recordDelivery triggerID stream message.id jobID now state.store.db =
      .ok () store'.db) :
    RedisSound env contents
      (state.put store' index ⟨triggerID, stream, message :: rest, .delivered⟩) := by
  have lasting := lasting_recordDelivery hrun
  have hsound := h.handlings _ (List.mem_of_getElem? hhandling)
  have hlinked : Linked env contents state.store.db (triggerID, stream, message.id) jobID :=
    hsound.stage message rest rfl
  obtain ⟨deliveries, hdb, _, ⟨row, hrow, hid⟩, hothers⟩ := recordDelivery_ok hrun
  refine h.put index lasting (h.registry.same (by rw [hdb]) lasting.jobs) ⟨hsound.fixed, ?_⟩ ?_
  · rintro _ _ ⟨⟩
    obtain ⟨submission, _, hjob⟩ := hlinked
    refine ⟨row, hrow, lasting.jobs row.jobID ?_⟩
    rw [hid]
    exact h.registry.exists_job _ _ hjob
  · intro entry found hfound
    by_cases hentry : entry = (triggerID, stream, message.id)
    · rw [hentry, hrow] at hfound
      cases hfound
      rw [hentry, hid]
      exact hlinked.lasts lasting
    · rw [hothers entry hentry] at hfound
      exact (h.deliveries entry found hfound).lasts lasting

theorem RedisSound.receive (h : RedisSound env contents state) (triggerID stream : String)
    (ids : List String) :
    RedisSound env contents (state.advance env contents (.receive triggerID stream ids)) := by
  refine { h with handlings := List.forall_mem_append.mpr ⟨h.handlings, ?_⟩ }
  rw [List.forall_mem_singleton]
  refine ⟨fun message hmessage => ?_, fun _ _ _ => trivial⟩
  obtain ⟨id, _, rfl⟩ := List.mem_map.mp hmessage
  rfl

theorem RedisSound.crash (h : RedisSound env contents state) (index : Nat) :
    RedisSound env contents (state.advance env contents (.crash index)) := by
  refine { h with handlings := fun handling hhandling => ?_ }
  obtain ⟨position, hposition⟩ := List.mem_iff_getElem?.mp hhandling
  simp only [RedisState.advance, List.getElem?_modify] at hposition
  obtain ⟨old, hold, rfl⟩ := Option.map_eq_some_iff.mp hposition
  split
  · exact .stop ..
  · exact h.handlings old (List.mem_of_getElem? hold)

theorem RedisSound.advance (h : RedisSound env contents state) (event : RedisEvent) :
    RedisSound env contents (state.advance env contents event) := by
  have hstep := redisStep env contents state event
  generalize state.advance env contents event = state' at hstep ⊢
  cases hstep with
  | idle => exact h
  | call call hcall =>
    have lasting := lasting_step env state.store call
    exact {
      registry := h.registry.step env call
      handlings := fun handling hhandling => (h.handlings handling hhandling).lasts lasting
      receipts := fun receipt hreceipt => (h.receipts receipt hreceipt).lasts lasting
      once := h.once
      deliveries := fun entry row hrow => by
        rw [deliveries_step hcall] at hrow
        exact (h.deliveries entry row hrow).lasts lasting
      acks := fun entry hentry => (h.acks entry hentry).lasts lasting }
  | receive triggerID stream ids => exact h.receive triggerID stream ids
  | refused _ hdb =>
    refine h.put _ (.same hdb) ?_ (.stop ..) ?_ <;> rw [hdb]
    · exact h.registry
    · exact h.deliveries
  | submitted hhandling hsubmission hperform => exact h.submitted hhandling hsubmission hperform
  | failed => exact h.put _ (.same rfl) h.registry (.stop ..) h.deliveries
  | recorded hhandling hrun => exact h.recorded hhandling hrun
  | @acknowledged index triggerID stream message rest answered hhandling =>
    have hsound := h.handlings _ (List.mem_of_getElem? hhandling)
    have hnext : HandlingSound env contents state.store.db
        (if answered then ⟨triggerID, stream, rest, .received⟩
          else Handling.stop ⟨triggerID, stream, rest, .received⟩) := by
      split
      · exact ⟨fun other hother => hsound.fixed other (List.mem_cons_of_mem _ hother),
          fun _ _ _ => trivial⟩
      · exact .stop ..
    have hput := h.put index (.same rfl) h.registry hnext h.deliveries
    refine { hput with acks := List.forall_mem_append.mpr ⟨hput.acks, ?_⟩ }
    rw [List.forall_mem_singleton]
    exact hsound.stage _ _ rfl
  | crash index => exact h.crash index

theorem redisSound_fresh (env : Env) (contents : String → String → RedisValue)
    (options : Options) : RedisSound env contents ⟨freshStore options, [], [], []⟩ where
  registry := registry_empty
  handlings _ hhandling := nomatch hhandling
  receipts _ hreceipt := nomatch hreceipt
  once := .nil
  deliveries _ _ hrow := nomatch hrow
  acks _ hentry := nomatch hentry

theorem RedisSound.run (h : RedisSound env contents state) (events : List RedisEvent) :
    RedisSound env contents (state.run env contents events) :=
  Throughout.keeps (fun _ event hstate _ => hstate.advance event) h
    (.always (fun _ _ => trivial) state events)

theorem advance_deliveriesKept (state : RedisState) (event : RedisEvent) :
    DeliveriesKept state.store.db (state.advance env contents event).store.db := by
  have hstep := redisStep env contents state event
  generalize state.advance env contents event = state' at hstep ⊢
  cases hstep with
  | call call => exact deliveriesKept_step env state.store call
  | refused _ hdb => exact (Lasting.same hdb).deliveries
  | submitted _ _ hperform =>
    obtain rfl := perform_submitJob env hperform
    exact deliveriesKept_step env state.store _
  | recorded _ hrun => exact (lasting_recordDelivery hrun).deliveries
  | _ => exact fun _ _ hrow => hrow

end Consumers

section Delivering

variable {store store' : StoreState} {delivery : RedisDelivery} {elapsed : Int} {entropy : Entropy}

/-- The key of a delivery in `redis_deliveries`. -/
def entryOf (delivery : RedisDelivery) : String × String × String :=
  (delivery.triggerID, delivery.stream, delivery.messageID)

section Delivered

variable (h : deliverRedis env store delivery now elapsed entropy = (.ok (), store'))
include h

theorem deliverRedis_ok : ∃ submission job duplicate submitted, redisSubmission env delivery = .ok submission ∧
      store.perform ⟨now, elapsed⟩ (submitJob store.options submission entropy) =
        (.ok (job, duplicate), submitted) ∧
      recordDelivery delivery.triggerID delivery.stream delivery.messageID job.id now submitted.db =
        .ok () store'.db := by
  unfold deliverRedis at h
  split at h
  · cases h
  · rename_i submission hsubmission
    split at h
    · cases h
    · rename_i job duplicate submitted hperform
      exact ⟨submission, job, duplicate, submitted, hsubmission, hperform, (transact_ok h).1⟩

theorem deliverRedis_linked (registry : Registry store.db) :
    ∃ submission row, redisSubmission env delivery = .ok submission ∧
      store'.db.redisDeliveries.get? (entryOf delivery) = some row ∧
      registered store'.db (submissionKey submission) = some row.jobID := by
  obtain ⟨submission, job, duplicate, submitted, hsubmission, hperform, hrecord⟩ :=
    deliverRedis_ok h
  obtain ⟨_, _, _, ⟨row, hrow, hjob⟩, _⟩ := recordDelivery_ok hrecord
  refine ⟨submission, row, hsubmission, hrow, ?_⟩
  rw [hjob]
  exact registered_kept (lasting_recordDelivery hrecord).requests
    (perform_submitted registry hperform).registered

theorem deliverRedis_lasts : Lasting store.db store'.db := by
  have hsame : run env store [.deliverRedis delivery now elapsed entropy] = store' :=
    congrArg Prod.snd h
  rw [← hsame]
  exact lasting_run env store _

theorem deliverRedis_registry (registry : Registry store.db) : Registry store'.db := by
  have hsame : run env store [.deliverRedis delivery now elapsed entropy] = store' :=
    congrArg Prod.snd h
  rw [← hsame]
  exact registry.run env _

end Delivered

theorem submitJob_admits (habsent : db.idempotencyRequests.get? (submissionKey submission) = none)
    (h : submitJob options submission entropy now db = .ok (job, duplicate) db') :
    validateIdempotency submission.idempotencyKey submission.requestDigest = .ok () ∧
      (Response.job job).encodable = true ∧
      ∃ db1, admitJob options .blob submission.job.normalize submission.actor entropy now db =
        .ok job db1 := by
  obtain ⟨_, hvalid, h⟩ := lift_bind h
  replace h := readIdempotency_fresh habsent h
  obtain ⟨admitted, db1, hadmitted, h⟩ := bind_ok h
  obtain ⟨_, _, hrecord, h⟩ := bind_ok h
  obtain ⟨heq, _⟩ := pure_ok h
  cases heq
  obtain ⟨_, _, hrequire, _⟩ := bind_ok hrecord
  exact ⟨hvalid, (require_ok hrequire).1, db1, hadmitted⟩

theorem submitJob_succeeds (habsent : db.idempotencyRequests.get? (submissionKey submission) = none)
    (hvalid : validateIdempotency submission.idempotencyKey submission.requestDigest = .ok ())
    (hencodable : (Response.job job).encodable = true)
    (hadmitted : admitJob options .blob submission.job.normalize submission.actor entropy now db =
      .ok job db1) :
    Succeeds (submitJob options submission entropy now) db := by
  have hsame : db1.idempotencyRequests = db.idempotencyRequests :=
    Preserves.ok ((aloof_idempotencyRequests.moves _ _).admitJob _ _ _ _) hadmitted
  unfold submitJob
  rw [hvalid]
  refine .bind (.pure _) fun _ _ hpure => ?_
  obtain ⟨_, rfl⟩ := pure_ok hpure
  refine .bind ⟨_, _, readIdempotency_none habsent⟩ fun _ _ hread => ?_
  cases (readIdempotency_none habsent).symm.trans hread
  refine .bind ⟨job, db1, hadmitted⟩ fun _ _ hadmitted' => ?_
  rw [hadmitted] at hadmitted'
  cases hadmitted'
  refine .bind (.bind (.require hencodable) fun _ _ hrequire => ?_) fun _ _ _ => .pure _
  obtain ⟨_, rfl⟩ := require_ok hrequire
  exact .insert (show db1.idempotencyRequests.get? _ = none by rw [hsame]; exact habsent)

end Delivering

section Turns

variable {triggerID stream : String} {index : Nat} {store store' : StoreState}
  {message : XMessage} {rest : List XMessage} {state : RedisState} {elapsed : Int}
  {entropy : Entropy}

def AtBatch (state : RedisState) (index : Nat) (triggerID stream : String) (store : StoreState)
    (messages : List XMessage) : Prop :=
  state.store = store ∧ state.handlings[index]? = some ⟨triggerID, stream, messages, .received⟩

theorem getElem?_put_handling (h : state.handlings[index]? = some handling) (store : StoreState)
    (handling' : Handling) :
    (state.put store index handling').handlings[index]? = some handling' :=
  List.getElem?_set_self (List.getElem?_eq_some_iff.mp h).1

theorem submitMessage_ended (h : AtBatch state index triggerID stream store []) :
    submitMessage env state index now elapsed entropy = state := by
  unfold submitMessage
  rw [h.2]

theorem recordMessage_ended (h : AtBatch state index triggerID stream store []) :
    AtBatch (recordMessage state index) index triggerID stream store [] := by
  unfold recordMessage
  rw [h.2]
  exact h

theorem acknowledgeMessage_ended (answered : Bool)
    (h : AtBatch state index triggerID stream store []) :
    AtBatch (acknowledgeMessage state index answered) index triggerID stream store [] := by
  unfold acknowledgeMessage
  rw [h.2]
  exact h

def following (rest : List XMessage) (acknowledged : Bool) : Except Error Unit → List XMessage
  | .ok _ => if acknowledged then rest else []
  | .error _ => []

theorem recordMessage_then (acknowledged : Bool) (hstore : state.store = store)
    (h : state.handlings[index]? = some ⟨triggerID, stream, message :: rest, .submitted jobID now⟩)
    (htransact : store.transact (recordDelivery triggerID stream message.id jobID now) =
      (result, store')) :
    AtBatch (acknowledgeMessage (recordMessage state index) index acknowledged) index triggerID
      stream store' (following rest acknowledged result) := by
  unfold recordMessage
  rw [h, hstore]
  dsimp only
  rw [htransact]
  cases result with
  | error error =>
    exact acknowledgeMessage_ended acknowledged ⟨rfl, getElem?_put_handling h _ _⟩
  | ok _ =>
    have hdelivered := getElem?_put_handling h store'
      ⟨triggerID, stream, message :: rest, .delivered⟩
    unfold acknowledgeMessage
    dsimp only
    rw [hdelivered]
    cases acknowledged <;> exact ⟨rfl, getElem?_put_handling hdelivered store' _⟩

theorem turn_atBatch (acknowledged : Bool)
    (h : AtBatch state index triggerID stream store (message :: rest)) :
    let delivered := deliverRedis env store (message.delivery triggerID stream) now elapsed entropy
    AtBatch (acknowledgeMessage (recordMessage
        (submitMessage env state index now elapsed entropy) index) index acknowledged)
      index triggerID stream delivered.2 (following rest acknowledged delivered.1) := by
  obtain ⟨rfl, hhandling⟩ := h
  have hput := getElem?_put_handling hhandling
  dsimp only
  unfold deliverRedis submitMessage
  rw [hhandling]
  dsimp only
  cases redisSubmission env (message.delivery triggerID stream) with
  | error error => exact acknowledgeMessage_ended _ (recordMessage_ended ⟨rfl, hput _ _⟩)
  | ok submission =>
    dsimp only
    rcases state.store.perform ⟨now, elapsed⟩
      (submitJob state.store.options submission entropy) with ⟨error | ⟨job, duplicate⟩, submitted⟩
    · exact acknowledgeMessage_ended _ (recordMessage_ended ⟨rfl, hput _ _⟩)
    · exact recordMessage_then acknowledged rfl (hput submitted _) rfl

theorem messageTurns_atBatch (contents : String → String → RedisValue) (turn : Nat → MessageTurn)
    (number : Nat) (hcount : messages.length ≤ count)
    (h : AtBatch state index triggerID stream store messages) :
    AtBatch (state.run env contents (messageTurns index turn number count)) index triggerID stream
      (handleMessages env triggerID stream turn number store messages).store [] := by
  induction count generalizing number state store messages with
  | zero =>
    obtain rfl := List.length_eq_zero_iff.mp (Nat.le_zero.mp hcount)
    exact h
  | succ count ih =>
    have hnone : ([] : List XMessage).length ≤ count := Nat.zero_le count
    change AtBatch (RedisState.run env contents
      (acknowledgeMessage (recordMessage (submitMessage _ _ _ _ _ _) _) _ _) _) _ _ _ _ _
    cases messages with
    | nil =>
      rw [submitMessage_ended h]
      exact ih (number + 1) hnone (acknowledgeMessage_ended _ (recordMessage_ended h))
    | cons message rest =>
      have hturn : AtBatch (acknowledgeMessage (recordMessage (submitMessage env state index
          (turn number).now (turn number).elapsed (turn number).entropy) index) index
          (turn number).acknowledged) _ _ _ _ _ := turn_atBatch _ h
      unfold handleMessages
      rcases hdeliver : deliverRedis env store (message.delivery triggerID stream)
        (turn number).now (turn number).elapsed (turn number).entropy with
        ⟨error | _, delivered⟩ <;> rw [hdeliver] at hturn
      · exact ih (number + 1) hnone hturn
      · dsimp only
        cases hanswer : (turn number).acknowledged <;> rw [hanswer] at hturn
        · exact ih (number + 1) hnone hturn
        · exact ih (number + 1) (Nat.le_of_succ_le_succ hcount) hturn

theorem run_messageTurns (env : Env) (contents : String → String → RedisValue)
    (state : RedisState) (triggerID stream : String) (ids : List String)
    (turn : Nat → MessageTurn) :
    AtBatch ((state.advance env contents (.receive triggerID stream ids)).run env contents
        (messageTurns state.handlings.length turn 0 ids.length))
      state.handlings.length triggerID stream
      (handleMessages env triggerID stream turn 0 state.store
        (ids.map fun id => ⟨id, contents stream id⟩)).store [] := by
  refine messageTurns_atBatch contents turn 0 (List.length_map _).le ⟨rfl, ?_⟩
  exact List.getElem?_concat_length

end Turns

end RailYard.Refinement
