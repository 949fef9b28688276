import RailYard.Scheduler.Journal
import RailYard.Library.ByteText
import RailYard.Library.JsonStruct

/-! Reading a decision log: one record a line, numbered without a gap from 1,
each verified against the hash of the record before it. -/
namespace RailYard.Scheduler
open Library Library.JsonStruct Domain

section Decoders

/-- `int` and `int64`. -/
def number : Decoder Int := integer fun value => int64 value = value

def candidateMembers : List (Member Candidate) :=
  [member "job_id" text Candidate.jobID fun record value => { record with jobID := value },
    member "tenant_id" text Candidate.tenantID fun record value => { record with tenantID := value },
    member "queue" text Candidate.queue fun record value => { record with queue := value },
    member "priority" number Candidate.priority fun record value => { record with priority := value },
    member "ready_seq" number Candidate.readySeq fun record value => { record with readySeq := value },
    member "slot_cost" number Candidate.slotCost fun record value => { record with slotCost := value },
    member "recovery" flag Candidate.recovery fun record value => { record with recovery := value }]

def Candidate.zero : Candidate := ⟨"", "", "", 0, 0, 0, false⟩

def queueMembers : List (Member Queue) :=
  [member "tenant_id" text Queue.tenantID fun record value => { record with tenantID := value },
    member "name" text Queue.name fun record value => { record with name := value },
    member "weight" number Queue.weight fun record value => { record with weight := value },
    member "deficit" number Queue.deficit fun record value => { record with deficit := value },
    member "candidates" (slice Candidate.zero (struct candidateMembers)) Queue.candidates
      fun record value => { record with candidates := value }]

def Queue.zero : Queue := ⟨"", "", 0, 0, []⟩

def snapshotMembers : List (Member Snapshot) :=
  [member "sequence" number Snapshot.sequence fun record value => { record with sequence := value },
    member "logical_time_ns" number Snapshot.logicalTimeNS
      fun record value => { record with logicalTimeNS := value },
    member "worker_slots" number Snapshot.workerSlots
      fun record value => { record with workerSlots := value },
    member "batch_limit" number Snapshot.batchLimit
      fun record value => { record with batchLimit := value },
    member "cursor" number Snapshot.cursor fun record value => { record with cursor := value },
    member "queues" (slice Queue.zero (struct queueMembers)) Snapshot.queues
      fun record value => { record with queues := value },
    member "config_hash" text Snapshot.configHash
      fun record value => { record with configHash := value },
    member "algorithm" text Snapshot.algorithm fun record value => { record with algorithm := value }]

def Snapshot.zero : Snapshot := ⟨0, 0, 0, 0, 0, [], "", ""⟩

def grantMembers : List (Member Grant) :=
  [member "job_id" text Grant.jobID fun record value => { record with jobID := value },
    member "tenant_id" text Grant.tenantID fun record value => { record with tenantID := value },
    member "queue" text Grant.queue fun record value => { record with queue := value },
    member "slot_cost" number Grant.slotCost fun record value => { record with slotCost := value }]

def Grant.zero : Grant := ⟨"", "", "", 0⟩

def queueStateMembers : List (Member QueueState) :=
  [member "tenant_id" text QueueState.tenantID fun record value => { record with tenantID := value },
    member "queue" text QueueState.queue fun record value => { record with queue := value },
    member "deficit" number QueueState.deficit fun record value => { record with deficit := value }]

def QueueState.zero : QueueState := ⟨"", "", 0⟩

def decisionMembers : List (Member Decision) :=
  [member "sequence" number Decision.sequence fun record value => { record with sequence := value },
    member "grants" (slice Grant.zero (struct grantMembers)) Decision.grants
      fun record value => { record with grants := value },
    member "queues" (slice QueueState.zero (struct queueStateMembers)) Decision.queues
      fun record value => { record with queues := value },
    member "next_cursor" number Decision.nextCursor
      fun record value => { record with nextCursor := value }]

def Decision.zero : Decision := ⟨0, [], [], 0⟩

def recordMembers : List (Member Record) :=
  [member "schema_version" number Record.schemaVersion
      fun record value => { record with schemaVersion := value },
    member "sequence" number Record.sequence fun record value => { record with sequence := value },
    member "previous_hash" text Record.previousHash
      fun record value => { record with previousHash := value },
    member "input" (struct snapshotMembers) Record.input
      fun record value => { record with input := value },
    member "decision" (struct decisionMembers) Record.decision
      fun record value => { record with decision := value },
    member "hash" text Record.hash fun record value => { record with hash := value }]

def Record.zero : Record := ⟨0, 0, "", .zero, .zero, ""⟩

/-- The first document of a line as a record. What stands behind it is not
looked at. The message is the decoder's own. -/
def decodeRecord (line : List UInt8) : Except Error Record :=
  match JsonReader.read (ByteText.decode line) with
  | none => .error (.text "invalid JSON")
  | some (json, _) =>
    match struct recordMembers json Record.zero with
    | none => .error (.text "JSON does not describe a record")
    | some record => .ok record

end Decoders

def Record.verify (sha256 : Hash) (record : Record) (previousHash : String) : Except Error Unit :=
  if record.schemaVersion ≠ Scheduler.schemaVersion then
    .error (.text ("unsupported decision log schema " ++ toString record.schemaVersion))
  else if record.previousHash ≠ previousHash then
    .error (.about "previous hash %q, want %q" [record.previousHash, previousHash])
  else
    match newRecord sha256 record.previousHash record.input record.decision with
    | .error error => .error error
    | .ok expected =>
      if record.hash ≠ expected.hash then
        .error (.about "record hash %q, want %q" [record.hash, expected.hash])
      else .ok ()

def maxLine : Nat := 16 * 1024 * 1024

structure ReadState where
  records : List Record
  previousHash : String
  previousSequence : Int

def ReadState.initial : ReadState := ⟨[], "", 0⟩

def checkSequence (state : ReadState) (record : Record) : Except Error Unit :=
  if state.records.isEmpty then
    if record.sequence ≠ 1 then
      .error (.text ("decision log starts at sequence " ++ toString record.sequence))
    else .ok ()
  else if record.sequence ≠ state.previousSequence + 1 then
    .error (.text ("record sequence " ++ toString record.sequence ++ " follows " ++
      toString state.previousSequence))
  else .ok ()

/-- One turn of the loop over the lines. The carriage return that the scanner
drops is white space, too. -/
def readLine (decode : List UInt8 → Except Error Record) (sha256 : Hash) (state : ReadState)
    (line : List UInt8) : Except Error ReadState :=
  if maxLine ≤ line.length then
    .error (.wrapped "scan decision log" (.text "bufio.Scanner: token too long"))
  else if (ByteText.trimSpace line).isEmpty then .ok state
  else
    match decode (ByteText.trimSpace line) with
    | .error error =>
      .error (.wrapped ("decode record " ++ toString (state.records.length + 1)) error)
    | .ok record =>
      match checkSequence state record with
      | .error error => .error error
      | .ok () =>
        match record.verify sha256 state.previousHash with
        | .error error => .error (.wrapped ("verify record " ++ toString record.sequence) error)
        | .ok () => .ok ⟨state.records ++ [record], record.hash, record.sequence⟩

def readAll (decode : List UInt8 → Except Error Record) (sha256 : Hash) (stream : List UInt8) :
    Except Error (List Record) :=
  ((ByteText.lines stream).foldlM (readLine decode sha256) .initial).map ReadState.records

section Chain

variable {decode : List UInt8 → Except Error Record} {record : Record} {records : List Record}

/-- Records that are numbered from 1 and verified against what stands before
them. -/
def Linked (sha256 : Hash) (records : List Record) : Prop :=
  ∀ (earlier : List Record) (record : Record) (later : List Record),
    records = earlier ++ record :: later → record.sequence = earlier.length + 1 ∧
      record.verify sha256 (headHash earlier) = .ok ()

def readState (records : List Record) : ReadState :=
  ⟨records, headHash records, records.length⟩

theorem verify_ok_iff : record.verify sha256 previous = .ok () ↔
    record.schemaVersion = schemaVersion ∧ record.previousHash = previous ∧
      ∃ expected, newRecord sha256 previous record.input record.decision = .ok expected ∧
        record.hash = expected.hash := by
  unfold Record.verify
  constructor
  · intro h
    split_ifs at h with hschema hprevious
    rw [not_not] at hschema hprevious
    refine ⟨hschema, hprevious, ?_⟩
    rw [hprevious] at h
    cases hexpected : newRecord sha256 previous record.input record.decision with
    | error error =>
      rw [hexpected] at h
      cases h
    | ok expected =>
      rw [hexpected] at h
      dsimp only at h
      split_ifs at h with hhash
      exact ⟨expected, rfl, not_not.mp hhash⟩
  · rintro ⟨hschema, rfl, expected, hexpected, hhash⟩
    rw [if_neg (not_not.mpr hschema), if_neg (not_not.mpr rfl), hexpected]
    exact if_neg (not_not.mpr hhash)

theorem checkSequence_ok_iff : checkSequence (readState records) record = .ok () ↔
    record.sequence = records.length + 1 := by
  unfold checkSequence readState
  cases records with
  | nil =>
    change (if record.sequence ≠ 1 then _ else _) = _ ↔ record.sequence = 0 + 1
    split <;> simp_all
  | cons first rest =>
    change (if record.sequence ≠ ((first :: rest).length : Int) + 1 then _ else _) = _ ↔ _
    split <;> simp_all

theorem readState_append (records : List Record) (h : record.sequence = records.length + 1) :
    readState (records ++ [record]) = ⟨records ++ [record], record.hash, record.sequence⟩ := by
  unfold readState
  rw [headHash_append, h, List.length_append, List.length_singleton]
  rfl

theorem readLine_ok {line : List UInt8}
    (h : readLine decode sha256 (readState records) line = .ok state') :
    state' = readState records ∨ ∃ record : Record, state' = readState (records ++ [record]) ∧
      record.sequence = records.length + 1 ∧
      record.verify sha256 (headHash records) = .ok () := by
  unfold readLine at h
  split_ifs at h
  · exact .inl (Except.ok.inj h).symm
  · right
    split at h
    · cases h
    · rename_i record _
      split at h
      · cases h
      · rename_i hsequence
        split at h
        · cases h
        · rename_i hverify
          have hnumber := checkSequence_ok_iff.mp hsequence
          refine ⟨record, ?_, hnumber, hverify⟩
          rw [readState_append records hnumber]
          exact (Except.ok.inj h).symm

theorem Linked.append (h : Linked sha256 records) (hsequence : record.sequence = records.length + 1)
    (hverify : record.verify sha256 (headHash records) = .ok ()) :
    Linked sha256 (records ++ [record]) := by
  intro earlier other later hsplit
  rcases List.eq_nil_or_concat later with rfl | ⟨middle, last, rfl⟩
  · obtain ⟨rfl, hlast⟩ := List.append_inj' hsplit rfl
    obtain rfl := (List.cons.inj hlast).1
    exact ⟨hsequence, hverify⟩
  · rw [List.concat_eq_append, ← List.cons_append, ← List.append_assoc] at hsplit
    exact h earlier other middle (List.append_inj' hsplit rfl).1

theorem linked_nil (sha256 : Hash) : Linked sha256 [] :=
  fun earlier _ _ hsplit => by cases earlier <;> cases hsplit

theorem foldlM_readLine_ok {lines : List (List UInt8)} (linked : Linked sha256 records)
    (h : lines.foldlM (readLine decode sha256) (readState records) = .ok state') :
    ∃ all, state' = readState all ∧ Linked sha256 all := by
  induction lines generalizing records with
  | nil => exact ⟨records, (Except.ok.inj h).symm, linked⟩
  | cons line lines ih =>
    rw [List.foldlM_cons] at h
    cases hline : readLine decode sha256 (readState records) line with
    | error error =>
      rw [hline] at h
      cases h
    | ok next =>
      rw [hline] at h
      rcases readLine_ok hline with rfl | ⟨record, rfl, hsequence, hverify⟩
      · exact ih linked h
      · exact ih (linked.append hsequence hverify) h

theorem readAll_linked (h : readAll decode sha256 stream = .ok records) :
    Linked sha256 records := by
  unfold readAll at h
  cases hfold : (ByteText.lines stream).foldlM (readLine decode sha256) .initial with
  | error error =>
    rw [hfold] at h
    cases h
  | ok state =>
    rw [hfold] at h
    obtain ⟨all, rfl, hlinked⟩ := foldlM_readLine_ok (linked_nil sha256) hfold
    obtain rfl := Except.ok.inj h
    exact hlinked

theorem readLine_blank (state : ReadState) : readLine decode sha256 state [] = .ok state := by
  unfold readLine
  rw [if_neg (by decide)]
  rfl

theorem readAll_blank (stream : List UInt8) :
    readAll decode sha256 (10 :: stream) = readAll decode sha256 stream := by
  unfold readAll
  rw [ByteText.lines, if_pos rfl, List.foldlM_cons, readLine_blank]
  rfl

structure LineOf (decode : List UInt8 → Except Error Record) (line : List UInt8)
    (record : Record) : Prop where
  short : line.length < maxLine
  trimmed : ByteText.trimSpace line = line
  nonempty : line ≠ []
  decoded : decode line = .ok record

theorem readLine_lineOf {line : List UInt8} (h : LineOf decode line record)
    (hsequence : record.sequence = records.length + 1)
    (hverify : record.verify sha256 (headHash records) = .ok ()) :
    readLine decode sha256 (readState records) line = .ok (readState (records ++ [record])) := by
  unfold readLine
  rw [if_neg (Nat.not_le.mpr h.short), h.trimmed, List.isEmpty_eq_false_iff.mpr h.nonempty,
    if_neg Bool.false_ne_true, h.decoded]
  dsimp only
  have hprevious : (readState records).previousHash = headHash records := rfl
  rw [checkSequence_ok_iff.mpr hsequence, hprevious, hverify, readState_append records hsequence]
  rfl

theorem readAll_lines (write : Record → List UInt8) (linked : Linked sha256 records)
    (carried : ∀ record ∈ records, LineOf decode (write record) record)
    (feedless : ∀ record ∈ records, (10 : UInt8) ∉ write record) :
    readAll decode sha256 (records.flatMap fun record => write record ++ [10]) = .ok records := by
  have hmap : (records.flatMap fun record => write record ++ [10]) =
      (records.map write).flatMap fun line => line ++ [10] := by
    rw [List.flatMap_map]
  have hlines : ByteText.lines (records.flatMap fun record => write record ++ [10]) =
      records.map write := by
    rw [hmap, ByteText.lines_flatMap]
    exact List.forall_mem_map.mpr feedless
  have hfold : ∀ (later earlier : List Record), records = earlier ++ later →
      (later.map write).foldlM (readLine decode sha256) (readState earlier) =
        .ok (readState records) := by
    intro later
    induction later with
    | nil =>
      intro earlier hsplit
      rw [hsplit, List.append_nil]
      rfl
    | cons record later ih =>
      intro earlier hsplit
      have hmem : record ∈ records := by simp [hsplit]
      obtain ⟨hsequence, hverify⟩ := linked earlier record later hsplit
      rw [List.map_cons, List.foldlM_cons,
        readLine_lineOf (carried record hmem) hsequence hverify]
      exact ih (earlier ++ [record]) (by rw [hsplit, List.append_assoc, List.singleton_append])
  unfold readAll
  rw [hlines]
  exact congrArg _ (hfold records [] rfl)

end Chain

section RoundTrip

def Candidate.numbers (candidate : Candidate) : List Int :=
  [candidate.priority, candidate.readySeq, candidate.slotCost]

def Queue.numbers (queue : Queue) : List Int :=
  queue.weight :: queue.deficit :: queue.candidates.flatMap Candidate.numbers

def Snapshot.numbers (snapshot : Snapshot) : List Int :=
  snapshot.sequence :: snapshot.logicalTimeNS :: snapshot.workerSlots :: snapshot.batchLimit ::
    snapshot.cursor :: snapshot.queues.flatMap Queue.numbers

def Decision.numbers (decision : Decision) : List Int :=
  decision.sequence :: decision.nextCursor ::
    (decision.grants.map Grant.slotCost ++ decision.queues.map QueueState.deficit)

def Record.numbers (record : Record) : List Int :=
  record.schemaVersion :: record.sequence :: (record.input.numbers ++ record.decision.numbers)

theorem number_of_fits (h : int64 value = value) (old : Int) :
    number (.number value) old = some value := by
  simp [number, integer, h]

theorem decode_candidate (fits : ∀ value ∈ candidate.numbers, int64 value = value) :
    struct candidateMembers candidate.toJson .zero = some candidate := by
  have hzip := struct_zip candidateMembers (by decide +kernel)
    [.text candidate.jobID, .text candidate.tenantID, .text candidate.queue,
      .number candidate.priority, .number candidate.readySeq, .number candidate.slotCost,
      .bool candidate.recovery] .zero
  refine Eq.trans hzip ?_
  simp only [Candidate.numbers, List.forall_mem_cons] at fits
  simp [candidateMembers, member, text, flag, number_of_fits, fits]

theorem decode_queue (fits : ∀ value ∈ queue.numbers, int64 value = value) :
    struct queueMembers queue.toJson .zero = some queue := by
  simp only [Queue.numbers, List.forall_mem_cons, List.forall_mem_flatMap] at fits
  obtain ⟨hweight, hdeficit, hcandidates⟩ := fits
  have hslice : slice Candidate.zero (struct candidateMembers)
      (if queue.candidates.isEmpty then .null
        else .array (queue.candidates.map Candidate.toJson)) [] = some queue.candidates := by
    split
    · rename_i hempty
      rw [List.isEmpty_iff.mp hempty]
      rfl
    · exact slice_array (fun candidate hmem => decode_candidate (hcandidates candidate hmem)) []
  unfold Queue.toJson
  generalize (if queue.candidates.isEmpty then Json.null
    else .array (queue.candidates.map Candidate.toJson)) = candidates at hslice ⊢
  have hzip := struct_zip queueMembers (by decide +kernel)
    [.text queue.tenantID, .text queue.name, .number queue.weight, .number queue.deficit,
      candidates] .zero
  refine Eq.trans hzip ?_
  simp [queueMembers, member, text, number_of_fits, hweight, hdeficit, hslice, Queue.zero]

theorem decode_snapshot {snapshot : Snapshot}
    (fits : ∀ value ∈ snapshot.numbers, int64 value = value) :
    struct snapshotMembers snapshot.toJson .zero = some snapshot := by
  simp only [Snapshot.numbers, List.forall_mem_cons, List.forall_mem_flatMap] at fits
  obtain ⟨hsequence, htime, hslots, hlimit, hcursor, hqueues⟩ := fits
  have hslice := slice_array (fun queue hmem => decode_queue (hqueues queue hmem)) []
  have hzip := struct_zip snapshotMembers (by decide +kernel)
    [.number snapshot.sequence, .number snapshot.logicalTimeNS, .number snapshot.workerSlots,
      .number snapshot.batchLimit, .number snapshot.cursor,
      .array (snapshot.queues.map Queue.toJson), .text snapshot.configHash,
      .text snapshot.algorithm] .zero
  refine Eq.trans hzip ?_
  simp [snapshotMembers, member, text, number_of_fits, hsequence, htime, hslots, hlimit, hcursor,
    hslice, Snapshot.zero]

theorem decode_grant (fits : int64 grant.slotCost = grant.slotCost) :
    struct grantMembers grant.toJson .zero = some grant := by
  have hzip := struct_zip grantMembers (by decide +kernel)
    [.text grant.jobID, .text grant.tenantID, .text grant.queue, .number grant.slotCost] .zero
  refine Eq.trans hzip ?_
  simp [grantMembers, member, text, number_of_fits, fits]

theorem decode_queueState (fits : int64 state.deficit = state.deficit) :
    struct queueStateMembers state.toJson .zero = some state := by
  have hzip := struct_zip queueStateMembers (by decide +kernel)
    [.text state.tenantID, .text state.queue, .number state.deficit] .zero
  refine Eq.trans hzip ?_
  simp [queueStateMembers, member, text, number_of_fits, fits]

theorem decode_decision (fits : ∀ value ∈ decision.numbers, int64 value = value) :
    struct decisionMembers decision.toJson .zero = some decision := by
  simp only [Decision.numbers, List.forall_mem_cons, List.forall_mem_append,
    List.forall_mem_map] at fits
  obtain ⟨hsequence, hcursor, hgrants, hqueues⟩ := fits
  have hgrant := slice_array (fun grant hmem => decode_grant (hgrants grant hmem)) []
  have hqueue := slice_array (fun state hmem => decode_queueState (hqueues state hmem)) []
  have hzip := struct_zip decisionMembers (by decide +kernel)
    [.number decision.sequence, .array (decision.grants.map Grant.toJson),
      .array (decision.queues.map QueueState.toJson), .number decision.nextCursor] .zero
  refine Eq.trans hzip ?_
  simp [decisionMembers, member, number_of_fits, hsequence, hcursor, hgrant, hqueue, Decision.zero]

theorem decode_record {record : Record} (fits : ∀ value ∈ record.numbers, int64 value = value) :
    struct recordMembers record.toJson .zero = some record := by
  simp only [Record.numbers, List.forall_mem_cons, List.forall_mem_append] at fits
  obtain ⟨hschema, hsequence, hinput, hdecision⟩ := fits
  have hsnapshot := decode_snapshot hinput
  have houtput := decode_decision hdecision
  have hzip := struct_zip recordMembers (by decide +kernel)
    [.number record.schemaVersion, .number record.sequence, .text record.previousHash,
      record.input.toJson, record.decision.toJson, .text record.hash] .zero
  refine Eq.trans hzip ?_
  simp [recordMembers, member, text, number_of_fits, hschema, hsequence, hsnapshot, houtput,
    Record.zero]

def Record.line (record : Record) : List UInt8 := utf8 record.toJson.render

theorem read_line (record : Record) :
    JsonReader.read (ByteText.decode record.line) = some (record.toJson, []) := by
  unfold Record.line utf8
  rw [ByteText.toUTF8_eq, ByteText.decode_encode, ← List.append_nil record.toJson.render.toList]
  exact JsonReader.read_render record.toJson rfl

theorem lineFeed_notMem_line (record : Record) : (10 : UInt8) ∉ record.line := by
  unfold Record.line utf8
  rw [ByteText.toUTF8_eq]
  exact ByteText.lineFeed_notMem_encode fun _ hmem =>
    JsonReader.visible_render _ _ (Nat.le_refl _) hmem

theorem line_eq_braces (record : Record) :
    ∃ content, record.line = 0x7b :: (content ++ [0x7d]) := by
  unfold Record.line utf8
  rw [ByteText.toUTF8_eq, Record.toJson, JsonReader.toList_render_object]
  generalize [','].intercalate _ = text
  refine ⟨ByteText.encode text, ?_⟩
  unfold ByteText.encode
  rw [List.flatMap_cons, List.flatMap_append]
  rfl

theorem lineOf_line {record : Record} (fits : ∀ value ∈ record.numbers, int64 value = value)
    (short : record.line.length < maxLine) : LineOf decodeRecord record.line record := by
  obtain ⟨content, hline⟩ := line_eq_braces record
  refine ⟨short, ?_, ?_, by rw [decodeRecord, read_line]; dsimp only; rw [decode_record fits]⟩
  · rw [hline, ByteText.trimSpace_braces]
  · rw [hline]
    exact List.cons_ne_nil _ _

end RoundTrip

end RailYard.Scheduler
