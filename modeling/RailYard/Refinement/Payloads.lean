import RailYard.Refinement.Histories
import RailYard.Refinement.Redrives

/-! How the payloads of events are bound. `SubmitJob` and `SubmitWorkflow` bind those
of their admissions as bytes. The redrive of the job API does so with what it writes,
and rewrites all events of its job. Every other call writes text. -/
namespace RailYard.Refinement
open Library Library.Transaction Domain Store
open Lifecycle

section Appending

/-- The log has grown by events that are bound as a call binds them. -/
def Appends (admission : StorageClass) (db db' : Database) : Prop :=
  ∃ new, db'.events = db.events ++ new ∧
    ∀ event ∈ new, event.storage = boundAs admission event.eventType

instance : IsPreorder Database (Appends admission) where
  refl _ := ⟨[], (List.append_nil _).symm, nofun⟩
  trans _ _ _ := by
    rintro ⟨new, hnew, hbound⟩ ⟨more, hmore, hbound'⟩
    refine ⟨new ++ more, by rw [hmore, hnew, List.append_assoc], ?_⟩
    rw [List.forall_mem_append]
    exact ⟨hbound, hbound'⟩

theorem appends_event (db : Database) (h : event.storage = boundAs admission event.eventType) :
    Appends admission db { db with events := db.events ++ [event] } :=
  ⟨[event], rfl, List.forall_mem_singleton.mpr h⟩

theorem appends_lives (now : Time) : Lives now admission (Appends admission) := by
  refine ⟨⟨⟨?_, ?_, ?_, ?_, ?_, ?_, ?_, fun db _ hplain _ => appends_event db hplain.2⟩, ?_, ?_, ?_,
    ?_⟩, ?_, ?_⟩
  all_goals intros; exact refl_of (Appends admission) _

theorem appends_writes (now : Time) (area : Area) : Writes now .text (Appends admission) area := by
  cases area
  case controls =>
    refine ⟨⟨fun db _ _ _ _ => refl_of (Appends admission) db,
      fun db _ _ _ _ => refl_of (Appends admission) db⟩, fun db event hnoted => appends_event db ?_,
      fun _ _ hreword => nomatch hreword.1⟩
    obtain ⟨_, hoperator, hstorage⟩ := hnoted
    rw [hstorage]
    cases hkind : event.eventType <;> rw [hkind] at hoperator <;> first | rfl | cases hoperator
  all_goals dsimp only [Writes]; repeat' constructor
  all_goals intros; exact refl_of (Appends admission) _

theorem appends_step (h : noteStorage call.op = .text) :
    Appends (admissionStorage call.op) store.db (step env store call).2.db := by
  refine step_relates appends_lives (fun now => ?_) fun _ db _ _ => refl_of (Appends _) db
  rw [h]
  exact appends_writes now _

end Appending

section Rewriting

/-- The events that the redrive of a job binds as bytes: those of the job, and the
admission of the job that it creates. -/
def Credited (jobID createdID : String) (event : EventRow) : Prop :=
  event.jobID = jobID ∨ isAdmissionOf createdID event = true

theorem cloneJob_id (h : cloneJob options original entropy now db = .ok created db') :
    created.id = newID entropy := by
  repeat obtain ⟨_, _, _, h⟩ := bind_ok h
  obtain ⟨rfl, _⟩ := pure_ok h
  rfl

/-- What becomes of an event in such a redrive. -/
def credit (jobID createdID actor : String) (event : EventRow) : EventRow :=
  let event := if isAdmissionOf createdID event then
    { event with payload := setActor actor event.payload, storage := .blob } else event
  if event.jobID = jobID then { event with storage := .blob } else event

theorem reworded_credit : Reworded event (credit jobID createdID actor event) := by
  unfold credit
  dsimp only
  split_ifs <;> exact ⟨_, _, rfl⟩

theorem storage_credit : (credit jobID createdID actor event).storage = .blob ↔
    Credited jobID createdID event ∨ event.storage = .blob := by
  unfold credit Credited
  dsimp only
  split_ifs <;> simp_all

theorem redriveDeadLetter_credits
    (h : redriveDeadLetter sha256 options jobID key digest contextActor entropy now db =
      .ok result db') :
    db'.events = db.events ∨ ∃ actor new,
      db'.events = (db.events ++ new).map (credit jobID (newID entropy) actor) ∧
      0 < new.length ∧ ∀ event ∈ new, event.storage = .blob →
        Credited jobID (newID entropy) event := by
  obtain ⟨job, _, h⟩ := found_bind h rfl
  obtain ⟨letter, _, h⟩ := found_bind h rfl
  rcases readControlAction_bind h with ⟨row, _, h⟩ | ⟨_, h⟩
  · obtain ⟨_, rfl⟩ := pure_ok h
    exact .inl rfl
  obtain ⟨_, h⟩ := require_bind h
  obtain ⟨created, db1, hclone, h⟩ := bind_ok h
  have hid := cloneJob_id hclone
  obtain ⟨new, hnew, hbound⟩ : Appends .text db db1 :=
    ((appends_lives now).cloneJob _ _ _).ok hclone
  obtain ⟨_, db2, hattribute, h⟩ := bind_ok h
  obtain ⟨_, db3, hlink, h⟩ := bind_ok h
  obtain ⟨_, db4, hnote, h⟩ := bind_ok h
  obtain ⟨_, db5, hnormalize, h⟩ := bind_ok h
  obtain ⟨_, _, hinsert⟩ := bind_pure_ok h
  replace hattribute := query_bind hattribute
  obtain ⟨_, _, hmutate, hcount⟩ := bind_ok hattribute
  obtain ⟨_, rfl⟩ := require_ok hcount
  have hfiled : Filed now (Unchanged Database.events) :=
    ⟨fun _ _ _ _ _ => rfl, fun _ _ _ _ _ => rfl⟩
  have hlinks : Links (Unchanged Database.events) := fun _ _ _ => rfl
  have hevents : db'.events = db5.events :=
    Preserves.ok (relates_insertControlAction hfiled _ rfl) hinsert
  have hlinked : db3.events = _ := Preserves.ok (hlinks.linkRedriven _ _) hlink
  unfold appendActorEvent addEvent at hnote
  obtain ⟨note, hnoted, hjob, hkind⟩ : ∃ note : EventRow, db4.events = db3.events ++ [note] ∧
      note.jobID = jobID ∧ note.eventType = .operator "redrive" :=
    ⟨_, (congrArg Database.events (mutate_ok hnote)).symm, rfl, rfl⟩
  have hcredit : ∀ actor, credit jobID (newID entropy) actor note =
      if note.jobID = jobID then { note with storage := .blob } else note := by
    simp [credit, isAdmissionOf, hkind]
  refine .inr ⟨if contextActor = "" then "api" else contextActor, new ++ [note], ?_, by simp, ?_⟩
  · rw [hevents, ← mutate_ok hnormalize]
    dsimp only
    rw [hnoted, hlinked, ← mutate_ok hmutate, hid]
    dsimp only
    rw [hnew, ← List.append_assoc]
    simp only [List.map_append, List.map_map, List.map_singleton, hcredit]
    rfl
  · rw [List.forall_mem_append, List.forall_mem_singleton]
    refine ⟨fun event hevent hblob => ?_, fun _ => .inl hjob⟩
    rw [hbound event hevent] at hblob
    cases hkind : event.eventType <;> rw [hkind] at hblob <;> cases hblob

end Rewriting

end RailYard.Refinement
