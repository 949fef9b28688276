import RailYard.Properties.Leases
import RailYard.Refinement.Service
import RailYard.Scheduler.Replay

/-! The decision log outside of the store: what was exported is accepted and
replayed, and the hash of its last record stands for all of it. -/
namespace RailYard.Properties
open Domain Store Scheduler Refinement

/-- The order in which the queues of a snapshot were gathered shows neither in
the decision nor in its record. -/
def OrderFree (sha256 : Hash) (db : Database) : Prop :=
  ∀ request now queues, queues.Perm (buildQueues db (rankedJobs db now request.limit)) →
    Scheduler.decide { snapshotOf sha256 request now db with queues := queues } =
        Scheduler.decide (snapshotOf sha256 request now db) ∧
      ∀ previous decision,
        newRecord sha256 previous { snapshotOf sha256 request now db with queues := queues } decision =
          newRecord sha256 previous (snapshotOf sha256 request now db) decision

theorem orderFree (sha256 : Hash) (db : Database) : OrderFree sha256 db := by
  intro request now queues hperm
  have hnodup := nodup_keys_snapshotOf sha256 request now db
  exact ⟨decide_perm hperm hnodup, fun previous decision =>
    newRecord_perm hperm hnodup previous decision⟩

/-- Every export is accepted whole, and every decision in it is made again byte
for byte. -/
theorem production_logs_replay (env : Env) (options : Options) (activities : List Activity)
    (short : ∀ record ∈ decisionRecords (run env (freshStore options) activities).db,
      record.line.length < maxLine)
    (fits : ∀ record ∈ decisionRecords (run env (freshStore options) activities).db,
      ∀ value ∈ record.numbers, int64 value = value) :
    let db := (run env (freshStore options) activities).db
    let log := decisionRecords db
    readAll decodeRecord env.sha256 (exportDecisionLog db) = .ok log ∧
      replay decodeRecord env.sha256 (exportDecisionLog db) =
        .ok (⟨log.length, hexEncode (env.sha256 (replayed log))⟩, replayed log) ∧
      db.schedulerSeq = log.length ∧ log.length = db.decisionLog.rows.length ∧
      OrderFree env.sha256 db := by
  intro db log
  have explained := explained_run env options activities
  have hlog : log = records db := explained.decisionRecords_eq
  have hcommitted : Committed env.sha256 log := hlog ▸ explained.committed
  have hread : readAll decodeRecord env.sha256 (exportDecisionLog db) = .ok log :=
    readAll_lines Record.line hcommitted.linked
      (fun record hmem => lineOf_line (fits record hmem) (short record hmem))
      fun record _ => lineFeed_notMem_line record
  refine ⟨hread, replay_of_readAll hcommitted hread, ?_, ?_, orderFree env.sha256 db⟩
  · rw [hlog]
    exact explained.counter
  · rw [hlog]
    exact List.length_map _

def shortEnv : Env := { plainEnv with sha256 := fun bytes => [bytes.foldl (· + ·) 0] }

def twoDecisions : List Activity :=
  [plainJob 1 [], acquireTwo, plainJob 2 [], .call ⟨.acquire
    { workerID := "worker", availableSlots := 2, limit := 2, leaseTTL := 10 }
    (fun _ => entropyOf 3), ⟨2, 0⟩⟩]

theorem production_logs_replay_two :
    let db := (run shortEnv (freshStore defaultOptions) twoDecisions).db
    (decisionRecords db).length = 2 ∧
      readAll decodeRecord shortEnv.sha256 (exportDecisionLog db) = .ok (decisionRecords db) := by
  have hall : (decisionRecords (run shortEnv (freshStore defaultOptions) twoDecisions).db).length = 2 ∧
      ∀ record ∈ decisionRecords (run shortEnv (freshStore defaultOptions) twoDecisions).db,
        record.line.length < maxLine ∧ ∀ value ∈ record.numbers, int64 value = value := by
    decide +kernel
  exact ⟨hall.1, (production_logs_replay shortEnv defaultOptions _ (fun record h => (hall.2 record h).1)
    fun record h => (hall.2 record h).2).1⟩

/-- Two logs whose last records carry the same hash are the same log. -/
theorem head_commits {sha256 : Hash} (collisionFree : Function.Injective sha256)
    (nonempty : ∀ bytes, sha256 bytes ≠ []) {decode : List UInt8 → Except Error Record}
    {stream stream' : List UInt8} {log log' : List Record} {last last' : Record}
    (accepted : readAll decode sha256 stream = .ok (log ++ [last]))
    (accepted' : readAll decode sha256 stream' = .ok (log' ++ [last']))
    (same : last.hash = last'.hash) :
    (log ++ [last]).length = (log' ++ [last']).length ∧
      List.Forall₂ Agrees (log ++ [last]) (log' ++ [last']) := by
  have hall : List.Forall₂ Agrees (log ++ [last]) (log' ++ [last']) :=
    (readAll_linked accepted).agree collisionFree nonempty (readAll_linked accepted')
      (by rw [headHash_append, headHash_append, same])
  exact ⟨hall.length_eq, hall⟩

section HeadExample

def headInput (sequence : Int) : Snapshot := ⟨sequence, 0, 1, 1, 0, [], "", algorithmVersion⟩

def headDecision (sequence : Int) : Decision := ⟨sequence, [⟨"job", "tenant", "queue", 1⟩], [], 0⟩

def headMaterial (sequence : Int) (previous : String) : List UInt8 :=
  utf8 (hashMaterial sequence previous (canonicalSnapshot (headInput sequence))
    (headDecision sequence)).render

/-- A stand-in for a hash function without collisions, with short values for the two
records below. -/
def tagged : Hash := fun bytes =>
  if bytes = headMaterial 1 "" then [1]
  else if bytes = headMaterial 2 "01" then [2] else 0 :: bytes

theorem tagged_injective : Function.Injective tagged := by
  intro bytes bytes' h
  unfold tagged at h
  split_ifs at h <;> simp_all

theorem tagged_nonempty (bytes : List UInt8) : tagged bytes ≠ [] := by
  unfold tagged
  split_ifs <;> exact List.cons_ne_nil _ _

def headRecord (sequence : Int) (previous hash : String) : Record :=
  ⟨schemaVersion, sequence, previous, canonicalSnapshot (headInput sequence),
    headDecision sequence, hash⟩

theorem verify_headRecord {sequence : Int} {previous hash : String}
    (h : hexEncode (tagged (headMaterial sequence previous)) = hash) :
    (headRecord sequence previous hash).verify tagged previous = .ok () := by
  refine verify_ok_iff.mpr ⟨rfl, rfl, headRecord sequence previous hash, ?_, rfl⟩
  change newRecord tagged previous (canonicalSnapshot (headInput sequence)) _ = _
  rw [newRecord_canonicalSnapshot, ← h]
  exact if_neg (not_not.mpr rfl)

/-- With and without a blank line in front, a stream of two records holds the same
log. -/
theorem head_commits_two :
    let log := [headRecord 1 "" "01"] ++ [headRecord 2 "01" "02"]
    let stream := log.flatMap fun record => record.line ++ [10]
    readAll decodeRecord tagged stream = .ok log ∧
      readAll decodeRecord tagged (10 :: stream) = .ok log ∧ List.Forall₂ Agrees log log := by
  intro log stream
  have hfirst : hexEncode (tagged (headMaterial 1 "")) = "01" := by
    rw [tagged, if_pos rfl]
    decide
  have hsecond : hexEncode (tagged (headMaterial 2 "01")) = "02" := by
    rw [tagged, if_neg (by decide +kernel), if_pos rfl]
    decide
  have hone : Linked tagged ([] ++ [headRecord 1 "" "01"]) :=
    (linked_nil tagged).append rfl (verify_headRecord hfirst)
  have hlinked : Linked tagged log := hone.append rfl (verify_headRecord hsecond)
  have hshort : ∀ record ∈ log, record.line.length < maxLine := by decide +kernel
  have hfits : ∀ record ∈ log, ∀ value ∈ record.numbers, int64 value = value := by decide +kernel
  have hread : readAll decodeRecord tagged stream = .ok log :=
    readAll_lines Record.line hlinked
      (fun record hmem => lineOf_line (hfits record hmem) (hshort record hmem))
      fun record _ => lineFeed_notMem_line record
  have hblank : readAll decodeRecord tagged (10 :: stream) = .ok log := by
    rw [readAll_blank]
    exact hread
  exact ⟨hread, hblank, (head_commits tagged_injective tagged_nonempty hread hblank rfl).2⟩

end HeadExample

end RailYard.Properties
