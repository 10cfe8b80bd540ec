/-
# CrewList.Store.SchemaVersion -- which schema versions a reader lets through

`detail.rs` promises that readers reject every version but `schemaVersion`.  The
validator asks for at least 1 and the derived decoder for any `i32`, so between
them a later version passes as soon as its other fields can be read.
`schema_version_gate` says exactly when no other version is read from a document:
when it carries none, or when another of its fields is unreadable, which none of an
accepted document is whose keys are distinct and whose dates the codec reads.
-/
import CrewList.Store.Validator
import CrewList.Theory.Json

namespace CrewList.Store

open CrewList.Core
open CrewList.Theory.Serde

set_option autoImplicit false

section Gate

variable {V T : Type} [Deserializer V] [Serializer V] [LawfulFormat V] (time : Codec V T)

/-- The version a document carries: the one `schema_version` entry, or the second
element of a struct written as a sequence. -/
def CarriesVersion (v : V) (n : Int32) : Prop :=
  match deserializeStruct v with
  | .ok (.entries es) =>
      ∃ w, valuesAt es "schema_version" = [w] ∧ (Codec.i32 V).decode w = .ok n
  | .ok (.elements vs) => ∃ w, vs[1]? = some w ∧ (Codec.i32 V).decode w = .ok n
  | .error _ => False

/-- Every field but the version can be read: from entries, those without a default once
and the others at most once; from a sequence, all of them in their places. -/
def OtherwiseReadable (v : V) : Prop :=
  match deserializeStruct v with
  | .ok (.entries es) =>
      Field.ReadsOnce (.i64 V) es "task_id" ∧
        Field.ReadsAtMostOnce (.str V) es "description" ∧
        Field.ReadsAtMostOnce (Note.codec time).list es "notes" ∧
        Field.ReadsAtMostOnce (Source.codec time).list es "sources" ∧
        Field.ReadsAtMostOnce (Contact.codec V).list es "contacts" ∧
        Field.ReadsAtMostOnce ((Codec.str V).option (Codec.str_nonNull V)) es "summary" ∧
        Field.ReadsOnce time es "created_at" ∧ Field.ReadsOnce time es "updated_at"
  | .ok (.elements vs) =>
      ∃ taskId version description notes sources contacts summary createdAt updatedAt,
        vs = [taskId, version, description, notes, sources, contacts, summary, createdAt,
          updatedAt] ∧
        (Codec.i64 V).CanRead taskId ∧ (Codec.str V).CanRead description ∧
        (Note.codec time).list.CanRead notes ∧ (Source.codec time).list.CanRead sources ∧
        (Contact.codec V).list.CanRead contacts ∧
        ((Codec.str V).option (Codec.str_nonNull V)).CanRead summary ∧
        time.CanRead createdAt ∧ time.CanRead updatedAt
  | .error _ => False

/-- The document carries no version but the one this build writes, or is
unreadable for another reason. -/
def KnownVersion (v : V) : Prop :=
  ∀ n, CarriesVersion v n → OtherwiseReadable time v → n = schemaVersion

theorem reads_version_iff {v : V} {es : List (String × V)} {n : Int32}
    (shape : deserializeStruct v = .ok (.entries es)) :
    (∃ d, (TaskDetail.table time).fields.Reads es ((TaskDetail.table time).toRow d) ∧
        d.schemaVersion = n) ↔
      CarriesVersion v n ∧ OtherwiseReadable time v := by
  simp only [CarriesVersion, OtherwiseReadable, shape]
  constructor
  · rintro ⟨d, ⟨taskId, version, description, notes, sources, contacts, summary, createdAt,
      updatedAt, -⟩, rfl⟩
    refine ⟨?_, Field.exists_reads_required.mp ⟨_, taskId⟩,
      (Field.exists_reads_defaulted _).mp ⟨_, description⟩,
      (Field.exists_reads_defaulted _).mp ⟨_, notes⟩,
      (Field.exists_reads_defaulted _).mp ⟨_, sources⟩,
      (Field.exists_reads_defaulted _).mp ⟨_, contacts⟩,
      (Field.exists_reads_defaulted _).mp ⟨_, summary⟩,
      Field.exists_reads_required.mp ⟨_, createdAt⟩,
      Field.exists_reads_required.mp ⟨_, updatedAt⟩⟩
    rcases version with carried | ⟨-, default⟩
    · exact carried
    · cases default
  · rintro ⟨carried, taskId, description, notes, sources, contacts, summary, createdAt, updatedAt⟩
    obtain ⟨taskId, readTaskId⟩ := Field.exists_reads_required.mpr taskId
    obtain ⟨description, readDescription⟩ := (Field.exists_reads_defaulted "").mpr description
    obtain ⟨notes, readNotes⟩ := (Field.exists_reads_defaulted []).mpr notes
    obtain ⟨sources, readSources⟩ := (Field.exists_reads_defaulted []).mpr sources
    obtain ⟨contacts, readContacts⟩ := (Field.exists_reads_defaulted []).mpr contacts
    obtain ⟨summary, readSummary⟩ := (Field.exists_reads_defaulted none).mpr summary
    obtain ⟨createdAt, readCreatedAt⟩ := Field.exists_reads_required.mpr createdAt
    obtain ⟨updatedAt, readUpdatedAt⟩ := Field.exists_reads_required.mpr updatedAt
    exact ⟨(TaskDetail.table time).ofRow (taskId, n, description, notes, sources, contacts,
        summary, createdAt, updatedAt, ()),
      ⟨readTaskId, .inl carried, readDescription, readNotes, readSources, readContacts,
        readSummary, readCreatedAt, readUpdatedAt, trivial⟩, rfl⟩

theorem elements_version_iff {v : V} {vs : List V} {n : Int32}
    (shape : deserializeStruct v = .ok (.elements vs)) :
    (∃ d, (TaskDetail.table time).fields.Elements vs ((TaskDetail.table time).toRow d) ∧
        d.schemaVersion = n) ↔
      CarriesVersion v n ∧ OtherwiseReadable time v := by
  simp only [CarriesVersion, OtherwiseReadable, shape]
  constructor
  · rintro ⟨d, ⟨taskId, _, rfl, readTaskId, version, _, rfl, readVersion, description, _, rfl,
      readDescription, notes, _, rfl, readNotes, sources, _, rfl, readSources, contacts, _, rfl,
      readContacts, summary, _, rfl, readSummary, createdAt, _, rfl, readCreatedAt, updatedAt, _,
      rfl, readUpdatedAt, rfl⟩, rfl⟩
    exact ⟨⟨version, rfl, readVersion⟩, taskId, version, description, notes, sources, contacts,
      summary, createdAt, updatedAt, rfl, ⟨_, readTaskId⟩, ⟨_, readDescription⟩, ⟨_, readNotes⟩,
      ⟨_, readSources⟩, ⟨_, readContacts⟩, ⟨_, readSummary⟩, ⟨_, readCreatedAt⟩,
      ⟨_, readUpdatedAt⟩⟩
  · rintro ⟨⟨w, second, readVersion⟩, _, _, _, _, _, _, _, _, _, rfl, ⟨taskId, readTaskId⟩,
      ⟨description, readDescription⟩, ⟨notes, readNotes⟩, ⟨sources, readSources⟩,
      ⟨contacts, readContacts⟩, ⟨summary, readSummary⟩, ⟨createdAt, readCreatedAt⟩,
      ⟨updatedAt, readUpdatedAt⟩⟩
    cases second
    refine ⟨(TaskDetail.table time).ofRow (taskId, n, description, notes, sources, contacts,
      summary, createdAt, updatedAt, ()), ?_, rfl⟩
    exact ⟨_, _, rfl, readTaskId, _, _, rfl, readVersion, _, _, rfl, readDescription, _, _, rfl,
      readNotes, _, _, rfl, readSources, _, _, rfl, readContacts, _, _, rfl, readSummary, _, _,
      rfl, readCreatedAt, _, _, rfl, readUpdatedAt, rfl⟩

/-- Some value of version `n` is read exactly when the document carries `n` and
everything else can be read. -/
theorem decodes_version_iff {v : V} {n : Int32} :
    (∃ d, (TaskDetail.codec time).decode v = .ok d ∧ d.schemaVersion = n) ↔
      CarriesVersion v n ∧ OtherwiseReadable time v := by
  cases shape : deserializeStruct v with
  | error e =>
      simp [CarriesVersion, shape, TaskDetail.codec, StructTable.codec, StructTable.decode, bind,
        Except.bind]
  | ok access =>
      cases access with
      | entries es =>
          have decodes : ∀ d, (TaskDetail.codec time).decode v = .ok d ↔
              (TaskDetail.table time).fields.Reads es ((TaskDetail.table time).toRow d) := by
            intro d
            have accepted := (TaskDetail.table time).decode_entries_eq_ok (s := d) false shape
            rwa [and_iff_left (by simp)] at accepted
          simp only [decodes]
          exact reads_version_iff time shape
      | elements vs =>
          -- `updated_at` comes last and has no default
          have ends : (TaskDetail.table time).fields.EndsRequired := by
            simp [TaskDetail.table, Fields.EndsRequired, Field.required, Field.written]
          have decodes : ∀ d, (TaskDetail.codec time).decode v = .ok d ↔
              (TaskDetail.table time).fields.Elements vs ((TaskDetail.table time).toRow d) := by
            intro d
            have visited := (TaskDetail.table time).decode_elements_eq_ok (s := d) false shape
            exact visited.trans (Fields.visitSeq_eq_ok ends)
          simp only [decodes]
          exact elements_version_iff time shape

/-- Only the known version is ever read from a document exactly when the document
carries no other one or is unreadable anyway. -/
theorem version_gate {v : V} :
    (∀ d, (TaskDetail.codec time).decode v = .ok d → d.schemaVersion = schemaVersion) ↔
      KnownVersion time v := by
  constructor
  · intro gated n carried readable
    obtain ⟨d, decoded, rfl⟩ := (decodes_version_iff time).mpr ⟨carried, readable⟩
    exact gated d decoded
  · intro known d decoded
    obtain ⟨carried, readable⟩ := (decodes_version_iff time).mp ⟨d, decoded, rfl⟩
    exact known _ carried readable

end Gate

/-! ## Accepted documents -/

section Accepted

variable {T : Type} {c : DateCodec T} {es : List (String × Bson)}

/-- A spelling writes the version out, since it has no default. -/
theorem SpelledBy.version_mem {d : TaskDetail T} (spelled : SpelledBy c.reading d (.document es)) :
    ("schema_version", .int32 d.schemaVersion) ∈ es := by
  obtain ⟨es', parts, id, same, perm, spelled, -⟩ := spelled
  cases same
  apply perm.mem_iff.mpr
  apply List.mem_append_right
  rcases spelled with ⟨taskId, parts, rfl, -, spelled⟩ | ⟨default, -⟩
  · rcases spelled with ⟨version, parts, rfl, rfl, -⟩ | ⟨default, -⟩
    · exact .tail _ (.head _)
    · cases default
  · cases default

/-- Nothing in such a document is unreadable, so only its version matters. -/
theorem accepted_version_gate (accepted : detailValidator.accepts (.document es) = true)
    (regular : (Bson.document es).Regular c.Readable) :
    (∀ d, (TaskDetail.codec c.codec).decode (.document es) = .ok d →
        d.schemaVersion = schemaVersion) ↔
      ("schema_version", .int32 schemaVersion) ∈ es := by
  obtain ⟨d, -, spelled⟩ := (spelledBy_iff_accepts (describes_readable c)).mpr
    ⟨accepted, regular⟩
  have readAs : (TaskDetail.codec c.codec).decode (.document es) = .ok d := by
    rw [← decode_reading]
    exact spelled.decode
  have distinct := (Bson.regular_document.mp regular).1
  constructor
  · intro gated
    have written := spelled.version_mem
    rwa [gated d readAs] at written
  · intro current d' decoded
    rw [readAs] at decoded
    cases decoded
    have once := valuesAt_of_nodup distinct spelled.version_mem
    rw [valuesAt_of_nodup distinct current] at once
    simp only [List.cons.injEq, Bson.int32.injEq, and_true] at once
    exact once.symm

end Accepted

/-- **The schema version gate.**  BSON and JSON from anywhere, under any codec for the
timestamps: a reader sees no version but its own exactly when the document has none to
show.  An accepted document with distinct keys, whose dates the codec reads, is readable,
and so has its own version to show. -/
theorem schema_version_gate {T : Type} :
    (∀ (time : Codec Bson T) (doc : Bson),
        (∀ d, (TaskDetail.codec time).decode doc = .ok d → d.schemaVersion = schemaVersion) ↔
          KnownVersion time doc) ∧
      (∀ (time : Codec Json T) (v : Json),
        (∀ d, (TaskDetail.codec time).decode v = .ok d → d.schemaVersion = schemaVersion) ↔
          KnownVersion time v) ∧
      ∀ (c : DateCodec T) (es : List (String × Bson)),
        detailValidator.accepts (.document es) = true → (Bson.document es).DistinctKeys →
        (Bson.document es).DatesIn c.Readable →
          ((∀ d, (TaskDetail.codec c.codec).decode (.document es) = .ok d →
              d.schemaVersion = schemaVersion) ↔
            ("schema_version", .int32 schemaVersion) ∈ es) :=
  ⟨fun time _ => version_gate time, fun time _ => version_gate time,
    fun _ _ accepted distinct dates => accepted_version_gate accepted ⟨distinct, dates⟩⟩

/-- The empty detail of task 1, as the driver's date helper writes it. -/
def currentDocument : Bson :=
  (TaskDetail.codec chronoDatetimeAsBsonDatetime.codec).encode (.emptyFor 1 ⟨0, by decide⟩)

/-- A document of this version is read as one. -/
theorem current_version_read :
    ∃ d, (TaskDetail.codec chronoDatetimeAsBsonDatetime.codec).decode currentDocument = .ok d ∧
      d.schemaVersion = schemaVersion := by
  refine ⟨_, Codec.decode_encode _ _, ?_⟩
  refine (schema_version_gate.1 _ currentDocument).mpr ?_ _ (Codec.decode_encode _ _)
  rintro n ⟨w, once, carried⟩ -
  cases once
  cases carried
  rfl

/-- A document of version 2 with no optional key. -/
def laterDocument : Bson :=
  .document [("task_id", .int64 1), ("schema_version", .int32 2), ("created_at", .dateTime 0),
    ("updated_at", .dateTime 0)]

/-- The same as JSON. -/
def laterJson : Json :=
  .obj [("task_id", .int 1), ("schema_version", .int 2), ("created_at", .str "1970-01-01T00:00:00Z"),
    ("updated_at", .str "1970-01-01T00:00:00Z")]

/-- Version 2 passes both layers, and the missing keys are filled in from the
defaults of version 1. -/
theorem later_version_read :
    (detailValidator.accepts laterDocument = true ∧
        ∃ d, (TaskDetail.codec chronoDatetimeAsBsonDatetime.codec).decode laterDocument = .ok d ∧
          d.schemaVersion ≠ schemaVersion ∧ d.notes = []) ∧
      ∃ d, (TaskDetail.codec (isoTime Json .verbatim)).decode laterJson = .ok d ∧
        d.schemaVersion ≠ schemaVersion ∧ d.notes = [] := by
  refine ⟨⟨by decide, _, rfl, by decide, rfl⟩, _, rfl, by decide, rfl⟩

end CrewList.Store
