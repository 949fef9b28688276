import RailYard.Refinement.Redis
import RailYard.Properties.Submissions
import RailYard.Properties.Reserve

/-! Redis deliveries. An entry of a stream has one job, whoever delivers it and
however often; entries of different triggers or streams may share one, since their
keys are joined without a mark and lie among the keys of the clients. -/
namespace RailYard.Properties
open Library Library.Transaction Domain Store Server
open Refinement

variable {env : Env}

section Once

def redisStart (options : Options) : RedisState := ⟨freshStore options, [], [], []⟩

def CreatesReceipt (state state' : RedisState) : Prop :=
  state'.store.db.jobs = state.store.db.jobs ∨
    ∃ receipt row, state'.receipts = state.receipts ++ [receipt] ∧ receipt.duplicate = false ∧
      state.store.db.jobs.get? receipt.jobID = none ∧
      state'.store.db.jobs = state.store.db.jobs.insert receipt.jobID row

/-- An event issues no `XACK`, or one for an entry whose delivery and job are
committed before. -/
def AcknowledgesCommitted (state state' : RedisState) : Prop :=
  state'.acks = state.acks ∨
    ∃ entry, state'.acks = state.acks ++ [entry] ∧ Committed state.store.db entry

variable {contents : String → String → RedisValue} {state : RedisState}

theorem advance_createsReceipt (sound : RedisSound env contents state)
    (hevent : ∀ call, event ≠ .call call) :
    CreatesReceipt state (state.advance env contents event) := by
  have hstep := redisStep env contents state event
  generalize state.advance env contents event = state' at hstep ⊢
  cases hstep with
  | call call => exact (hevent call rfl).elim
  | refused _ hdb => exact .inl (congrArg Database.jobs hdb)
  | @submitted _ _ _ _ _ _ _ _ _ _ duplicate _ _ _ hperform =>
    have hsubmitted := perform_submitted sound.registry hperform
    cases duplicate with
    | true => exact .inl (congrArg Database.jobs (hsubmitted.again rfl))
    | false =>
      obtain ⟨_, habsent, row, hinsert⟩ := hsubmitted.fresh rfl
      exact .inr ⟨_, row, rfl, rfl, habsent, hinsert⟩
  | recorded _ hrun =>
    obtain ⟨_, hdb, _⟩ := recordDelivery_ok hrun
    have hjobs := congrArg Database.jobs hdb
    exact .inl hjobs
  | _ => exact .inl rfl

theorem advance_acknowledgesCommitted (sound : RedisSound env contents state) (event : RedisEvent) :
    AcknowledgesCommitted state (state.advance env contents event) := by
  have hstep := redisStep env contents state event
  generalize state.advance env contents event = state' at hstep ⊢
  cases hstep with
  | acknowledged _ hhandling =>
    have hsound := sound.handlings _ (List.mem_of_getElem? hhandling)
    exact .inr ⟨_, rfl, hsound.stage _ _ rfl⟩
  | _ => exact .inl rfl

/-- Effectively once: all submissions for an entry return one job, which only the
first of them creates; its row in `redis_deliveries` is the only one, names that job
and never changes; and `XACK` is issued when row and job are committed. -/
theorem redis_effectively_once (env : Env) (contents : String → String → RedisValue)
    (options : Options) (events : List RedisEvent) :
    let state := (redisStart options).run env contents events
    (state.receipts.Pairwise SameReceipt ∧ ∀ event, (∀ call, event ≠ .call call) →
      CreatesReceipt state (state.advance env contents event)) ∧
    ((∀ entry, (state.store.db.redisDeliveries.rows.filter fun row => row.1 = entry).length ≤ 1) ∧
      (∀ receipt ∈ state.receipts, ∀ row,
        state.store.db.redisDeliveries.get? receipt.entry = some row → row.jobID = receipt.jobID) ∧
      ∀ event, DeliveriesKept state.store.db (state.advance env contents event).store.db) ∧
    ∀ event, AcknowledgesCommitted state (state.advance env contents event) := by
  intro state
  have sound : RedisSound env contents state := (redisSound_fresh env contents options).run events
  refine ⟨⟨sound.once, fun event hevent => advance_createsReceipt sound hevent⟩,
    ⟨?_, ?_, fun event => advance_deliveriesKept state event⟩,
    advance_acknowledgesCommitted sound⟩
  · intro entry
    rw [← List.length_map Prod.snd, Table.rows_of_key]
    cases state.store.db.redisDeliveries.get? entry with
    | none => exact Nat.zero_le 1
    | some row => exact Nat.le_refl 1
  · intro receipt hreceipt row hrow
    exact (sound.receipts receipt hreceipt).unique (sound.deliveries _ row hrow)

end Once

section Distinct

variable {options : Options} {store : StoreState} {delivery : RedisDelivery}
  {submission : Submission} {now : Time} {elapsed : Int} {entropy : Entropy}

/-- The job of a delivery is valid and its tenant has room: under a key that nobody
has used the submission is accepted. -/
def Admissible (store : StoreState) (submission : Submission) (now : Time) (elapsed : Int)
    (entropy : Entropy) : Prop :=
  ∃ key job duplicate, store.db.idempotencyRequests.get?
      (submission.job.normalize.tenantID, key) = none ∧
    (store.perform ⟨now, elapsed⟩ (submitJob store.options
      { submission with idempotencyKey := key } entropy)).1 = .ok (job, duplicate)

/-- The delivery succeeds and is linked to a job that did not exist before. -/
def DeliversNew (env : Env) (store : StoreState) (delivery : RedisDelivery) (now : Time)
    (elapsed : Int) (entropy : Entropy) : Prop :=
  ∃ store' row, deliverRedis env store delivery now elapsed entropy = (.ok (), store') ∧
    store'.db.redisDeliveries.get? (entryOf delivery) = some row ∧
    store.db.jobs.get? row.jobID = none ∧ (store'.db.jobs.get? row.jobID).isSome

theorem redisSubmission_key (h : redisSubmission env delivery = .ok submission) :
    submission.idempotencyKey = delivery.idempotencyKey := by
  obtain ⟨encoded, _, h⟩ := except_bind_ok h
  split at h
  · cases h
  · cases h
    rfl

theorem blank_idempotencyKey (delivery : RedisDelivery) :
    blank delivery.idempotencyKey = false := by
  unfold blank RedisDelivery.idempotencyKey
  simp only [String.toList_append, List.all_append, Bool.and_eq_false_iff]
  exact .inl (.inl (.inl (.inl (.inl (by decide)))))

theorem linked_iff (registry : Registry store.db) (h : registered store.db key = some jobID)
    (h' : registered store.db key' = some jobID') : jobID ≠ jobID' ↔ key ≠ key' := by
  refine not_congr ⟨fun heq => ?_, fun heq => ?_⟩
  · rw [← heq] at h'
    exact registry.injective key key' jobID h h'
  · rw [heq, h'] at h
    exact (Option.some.inj h).symm

theorem deliversNew_of_free (registry : Registry store.db)
    (hsubmission : redisSubmission env delivery = .ok submission)
    (hnever : store.db.redisDeliveries.get? (entryOf delivery) = none)
    (hadmissible : Admissible store submission now elapsed entropy)
    (hfree : store.db.idempotencyRequests.get? (submissionKey submission) = none) :
    DeliversNew env store delivery now elapsed entropy := by
  obtain ⟨key, admitted, _, hkey, hother⟩ := hadmissible
  obtain ⟨_, hother⟩ := perform_ok hother
  have hkey : store.db.idempotencyRequests.get?
      (submissionKey { submission with idempotencyKey := key }) = none := hkey
  obtain ⟨hvalid, hencodable, _, hadmitted⟩ := submitJob_admits hkey hother
  have hown : validateIdempotency submission.idempotencyKey submission.requestDigest = .ok () := by
    rw [validateIdempotency_ok_iff] at hvalid ⊢
    rw [redisSubmission_key hsubmission]
    exact ⟨blank_idempotencyKey delivery, hvalid.2⟩
  obtain ⟨⟨job, duplicate⟩, db', hsubmit⟩ := submitJob_succeeds hfree hown hencodable hadmitted
  have hperform := perform_run hsubmit
  obtain ⟨rfl, _⟩ := submitJob_fresh hfree hsubmit
  obtain ⟨_, habsent, row, hinsert⟩ := (perform_submitted registry hperform).fresh rfl
  have hdeliveries : db'.redisDeliveries = store.db.redisDeliveries := by
    have hsame := @deliveries_step env store ⟨.submitJob submission entropy, ⟨now, elapsed⟩⟩ rfl
    rw [← perform_submitJob env hperform] at hsame
    exact hsame
  have hjob : (db'.jobs.get? job.id).isSome := by
    change db'.jobs = _ at hinsert
    rw [hinsert, Table.get?_insert_self _ _ habsent]
    rfl
  have hrow : ∀ found, db'.redisDeliveries.get? (entryOf delivery) = some found →
      found.jobID = job.id := by
    intro found hfound
    rw [hdeliveries, hnever] at hfound
    cases hfound
  obtain ⟨_, db'', hrecord⟩ := recordDelivery_succeeds now hjob hrow
  obtain ⟨_, _, _, ⟨found, hfound, hid⟩, _⟩ := recordDelivery_ok hrecord
  obtain ⟨store', hdeliver, rfl⟩ : ∃ store', deliverRedis env store delivery now elapsed entropy =
      (.ok (), store') ∧ store'.db = db'' := by
    refine ⟨{ store with db := db'', clock := store.clock.tick ⟨now, elapsed⟩ }, ?_, rfl⟩
    unfold deliverRedis
    rw [hsubmission]
    dsimp only
    rw [hperform]
    exact transact_run hrecord
  refine ⟨store', found, hdeliver, hfound, ?_⟩
  rw [hid]
  exact ⟨habsent, (lasting_recordDelivery hrecord).jobs job.id hjob⟩

theorem free_of_deliversNew (registry : Registry store.db)
    (hsubmission : redisSubmission env delivery = .ok submission)
    (h : DeliversNew env store delivery now elapsed entropy) :
    store.db.idempotencyRequests.get? (submissionKey submission) = none := by
  obtain ⟨store', row, hdeliver, hrow, hnew, _⟩ := h
  obtain ⟨found, job, duplicate, submitted, hfound, hperform, hrecord⟩ := deliverRedis_ok hdeliver
  rw [hsubmission] at hfound
  cases hfound
  have hsubmitted := perform_submitted registry hperform
  cases duplicate with
  | false => exact (hsubmitted.fresh rfl).1
  | true =>
    obtain ⟨_, _, _, ⟨linked, hlinked, hid⟩, _⟩ := recordDelivery_ok hrecord
    have hrow : store'.db.redisDeliveries.get?
      (delivery.triggerID, delivery.stream, delivery.messageID) = some row := hrow
    rw [hrow] at hlinked
    cases hlinked
    have hregistered := hsubmitted.registered
    rw [hsubmitted.again rfl] at hregistered
    have hexists := registry.exists_job _ _ hregistered
    rw [← hid, hnew] at hexists
    cases hexists

/-- Distinct deliveries have distinct jobs exactly if their keys differ, and a new
delivery that could be admitted has a new job exactly if its key is free. -/
theorem deliveries_distinct_iff (env : Env) (options : Options) (activities : List Activity) :
    let store := run env (freshStore options) activities
    (∀ first second submission submission' now now' elapsed elapsed' entropy entropy' between
        store' store'',
      redisSubmission env first = .ok submission → redisSubmission env second = .ok submission' →
      deliverRedis env store first now elapsed entropy = (.ok (), store') →
      deliverRedis env (run env store' between) second now' elapsed' entropy' = (.ok (), store'') →
      ∃ row row', store''.db.redisDeliveries.get? (entryOf first) = some row ∧
        store''.db.redisDeliveries.get? (entryOf second) = some row' ∧
        (row.jobID ≠ row'.jobID ↔ submissionKey submission ≠ submissionKey submission')) ∧
    ∀ delivery submission now elapsed entropy, redisSubmission env delivery = .ok submission →
      store.db.redisDeliveries.get? (entryOf delivery) = none →
      Admissible store submission now elapsed entropy →
      (DeliversNew env store delivery now elapsed entropy ↔
        store.db.idempotencyRequests.get? (submissionKey submission) = none) := by
  intro store
  have registry : Registry store.db := registry_empty.run env activities
  refine ⟨?_, ?_⟩
  · intro first second submission submission' _ _ _ _ _ _ between store' store'' hfirst hsecond
      hdeliver hdeliver'
    obtain ⟨found, row, hfound, hrow, hjob⟩ := deliverRedis_linked hdeliver registry
    rw [hfirst] at hfound
    cases hfound
    have registry' : Registry (run env store' between).db :=
      (deliverRedis_registry hdeliver registry).run env between
    obtain ⟨found, row', hfound, hrow', hjob'⟩ := deliverRedis_linked hdeliver' registry'
    rw [hsecond] at hfound
    cases hfound
    have hlasting : Lasting store'.db store''.db :=
      (lasting_run env store' between).trans (deliverRedis_lasts hdeliver')
    have registry'' : Registry store''.db := deliverRedis_registry hdeliver' registry'
    exact ⟨row, row', hlasting.deliveries _ row hrow, hrow',
      linked_iff registry'' (registered_kept hlasting.requests hjob) hjob'⟩
  · intro delivery submission now elapsed entropy hsubmission hnever hadmissible
    exact ⟨free_of_deliversNew registry hsubmission,
      deliversNew_of_free registry hsubmission hnever hadmissible⟩

/-- A job as `json.Marshal` writes it. -/
def noopText : String :=
  "\x7b\"tenant_id\":\"\",\"queue\":\"\",\"priority\":0,\"slot_cost\":0," ++
    "\"payload\":\x7b\"type\":\"noop\"\x7d,\"retry\":\x7b\"max_attempts\":0,\"retryable\":false\x7d," ++
    "\"available_at\":\"0001-01-01T00:00:00Z\"\x7d"

def noopEnv : Env :=
  { lengthEnv with
    decodeJobSpec := fun encoded =>
      if encoded = utf8 noopText then some ({ payload := { type := .noop } }, noopText) else none }

def deliveryFor (triggerID stream : String) : RedisDelivery :=
  ⟨triggerID, stream, "1-1", .text noopText⟩

def deliver (store : StoreState) (triggerID stream : String) (byte : UInt8) :
    Except Error Unit × StoreState :=
  deliverRedis noopEnv store (deliveryFor triggerID stream) 1 0 (entropyOf byte)

def linkedJob (store : StoreState) (triggerID stream : String) : Option String :=
  (store.db.redisDeliveries.get? (triggerID, stream, "1-1")).map TriggeredRow.jobID

def clientJob (key : String) (byte : UInt8) : Call :=
  ⟨.submitJob {
    job := { payload := { type := .noop } }
    actor := "api"
    idempotencyKey := key
    requestDigest := "digest" } (entropyOf byte), ⟨1, 0⟩⟩

/-- The deliveries of two triggers have one key, and so one job. A client has used
the key of a delivery, which is refused although its job is accepted under another
key. -/
theorem deliveries_share_keys : (let first := deliver (freshStore defaultOptions) "a" "b:c" 1
      let second := deliver first.2 "a:b" "c" 2
      refusal first.1 = none ∧ refusal second.1 = none ∧
        (linkedJob second.2 "a" "b:c").isSome ∧
        linkedJob second.2 "a" "b:c" = linkedJob second.2 "a:b" "c") ∧
    let used := (step noopEnv (freshStore defaultOptions) (clientJob "redis:a:b:1-1" 1)).2
    refusal (deliver used "a" "b" 2).1 = some .idempotencyConflict ∧
      refusal (step noopEnv used (clientJob "other" 2)).1 = none := by
  decide +kernel

end Distinct

end RailYard.Properties
