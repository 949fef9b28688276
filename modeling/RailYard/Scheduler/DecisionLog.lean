import RailYard.Scheduler.Decide
import RailYard.Domain.Digest

/-! The hash-chained record of one scheduling decision. -/
namespace RailYard.Scheduler
open Library Domain

def schemaVersion : Int := 1

structure Record where
  schemaVersion : Int
  sequence : Int
  previousHash : String
  input : Snapshot
  decision : Decision
  hash : String
  deriving DecidableEq

def Candidate.toJson (candidate : Candidate) : Json :=
  .object [("job_id", .text candidate.jobID),
    ("tenant_id", .text candidate.tenantID),
    ("queue", .text candidate.queue),
    ("priority", .number candidate.priority),
    ("ready_seq", .number candidate.readySeq),
    ("slot_cost", .number candidate.slotCost),
    ("recovery", .bool candidate.recovery)]

def Queue.toJson (queue : Queue) : Json :=
  .object [("tenant_id", .text queue.tenantID),
    ("name", .text queue.name),
    ("weight", .number queue.weight),
    ("deficit", .number queue.deficit),
    ("candidates", if queue.candidates.isEmpty then .null
      else .array (queue.candidates.map Candidate.toJson))]

def Snapshot.toJson (snapshot : Snapshot) : Json :=
  .object [("sequence", .number snapshot.sequence),
    ("logical_time_ns", .number snapshot.logicalTimeNS),
    ("worker_slots", .number snapshot.workerSlots),
    ("batch_limit", .number snapshot.batchLimit),
    ("cursor", .number snapshot.cursor),
    ("queues", .array (snapshot.queues.map Queue.toJson)),
    ("config_hash", .text snapshot.configHash),
    ("algorithm", .text snapshot.algorithm)]

def Grant.toJson (grant : Grant) : Json :=
  .object [("job_id", .text grant.jobID),
    ("tenant_id", .text grant.tenantID),
    ("queue", .text grant.queue),
    ("slot_cost", .number grant.slotCost)]

def QueueState.toJson (state : QueueState) : Json :=
  .object [("tenant_id", .text state.tenantID),
    ("queue", .text state.queue),
    ("deficit", .number state.deficit)]

def Decision.toJson (decision : Decision) : Json :=
  .object [("sequence", .number decision.sequence),
    ("grants", .array (decision.grants.map Grant.toJson)),
    ("queues", .array (decision.queues.map QueueState.toJson)),
    ("next_cursor", .number decision.nextCursor)]

def Record.toJson (record : Record) : Json :=
  .object [("schema_version", .number record.schemaVersion),
    ("sequence", .number record.sequence),
    ("previous_hash", .text record.previousHash),
    ("input", record.input.toJson),
    ("decision", record.decision.toJson),
    ("hash", .text record.hash)]

def hashMaterial (sequence : Int) (previousHash : String) (input : Snapshot)
    (decision : Decision) : Json :=
  .object [("schema_version", .number schemaVersion),
    ("sequence", .number sequence),
    ("previous_hash", .text previousHash),
    ("input", input.toJson),
    ("decision", decision.toJson)]

def newRecord (sha256 : Hash) (previousHash : String) (input : Snapshot) (decision : Decision) :
    Except Error Record :=
  if input.sequence ≠ decision.sequence then
    .error (.text "input and decision sequences differ")
  else
    let canonical := canonicalSnapshot input
    .ok {
      schemaVersion := schemaVersion
      sequence := input.sequence
      previousHash := previousHash
      input := canonical
      decision := decision
      hash := hexDigest sha256 (hashMaterial input.sequence previousHash canonical decision).render }

section Injectivity

theorem Candidate.toJson_injective : Function.Injective Candidate.toJson := by
  rintro ⟨⟩ ⟨⟩ h
  simpa [Candidate.toJson] using h

theorem Queue.toJson_injective : Function.Injective Queue.toJson := by
  rintro ⟨_, _, _, _, candidates⟩ ⟨_, _, _, _, candidates'⟩ h
  cases candidates <;> cases candidates' <;>
    simp_all [Queue.toJson, Candidate.toJson_injective.eq_iff,
      (List.map_injective_iff.mpr Candidate.toJson_injective).eq_iff]

theorem Snapshot.toJson_injective : Function.Injective Snapshot.toJson := by
  rintro ⟨⟩ ⟨⟩ h
  simpa [Snapshot.toJson, (List.map_injective_iff.mpr Queue.toJson_injective).eq_iff] using h

theorem Grant.toJson_injective : Function.Injective Grant.toJson := by
  rintro ⟨⟩ ⟨⟩ h
  simpa [Grant.toJson] using h

theorem QueueState.toJson_injective : Function.Injective QueueState.toJson := by
  rintro ⟨⟩ ⟨⟩ h
  simpa [QueueState.toJson] using h

theorem Decision.toJson_injective : Function.Injective Decision.toJson := by
  rintro ⟨⟩ ⟨⟩ h
  simpa [Decision.toJson, (List.map_injective_iff.mpr Grant.toJson_injective).eq_iff,
    (List.map_injective_iff.mpr QueueState.toJson_injective).eq_iff] using h

theorem hashMaterial_inj {sequence : Int} (h : hashMaterial sequence previous input decision =
      hashMaterial sequence' previous' input' decision') :
    previous = previous' ∧ input = input' ∧ decision = decision' := by
  simp only [hashMaterial, Json.object.injEq, List.cons.injEq, Prod.mk.injEq, Json.text.injEq,
    true_and, and_true] at h
  exact ⟨h.2.1, Snapshot.toJson_injective h.2.2.1, Decision.toJson_injective h.2.2.2⟩

end Injectivity

end RailYard.Scheduler
