/-
# CrewList.Store.Validator -- the Mongo validator and the document types

`detailValidator` is the `$jsonSchema` `mongo.rs` installs.  It and the derives of
`detail.rs` are two separately written descriptions of one format:

* `spelledBy_iff_accepts`: under a codec that writes timestamps as BSON dates, the
  documents that spell a `TaskDetail` of version 1 or later are exactly the
  accepted ones with distinct keys whose dates the codec has a timestamp for;
* `detail_language`: such a document decodes to the value it spells, and whatever an
  accepted document decodes to, writing it back is accepted again;
* `default_timestamps_refused`: with chrono's default serde form the two
  descriptions have no document in common, since that form is a string where the
  validator wants a date.
-/
import CrewList.Core.Detail
import CrewList.Theory.JsonSchema

namespace CrewList.Store

open CrewList.Core
open CrewList.Theory.Serde

set_option autoImplicit false

/-! ## The schema -/

def noteSchema : Schema :=
  .closed ["author", "body", "at"] [
    ("author", .ofType [.string]),
    ("body", .ofType [.string]),
    ("at", .ofType [.date])]

def sourceSchema : Schema :=
  .closed ["url", "retrieved_at"] [
    ("url", .ofType [.string]),
    ("title", .ofType [.string, .null]),
    ("retrieved_at", .ofType [.date])]

def contactSchema : Schema :=
  .closed ["name"] [
    ("name", .ofType [.string]),
    ("phone", .ofType [.string, .null]),
    ("email", .ofType [.string, .null]),
    ("url", .ofType [.string, .null])]

def detailRequired : List String := ["task_id", "schema_version", "created_at", "updated_at"]

def detailProperties : List (String × Schema) := [
  ("_id", .ofType [.objectId]),
  ("task_id", .ofType [.long]),
  ("schema_version", .atLeast .int 1),
  ("description", .ofType [.string]),
  ("summary", .ofType [.string, .null]),
  ("created_at", .ofType [.date]),
  ("updated_at", .ofType [.date]),
  ("notes", .arrayOf noteSchema),
  ("sources", .arrayOf sourceSchema),
  ("contacts", .arrayOf contactSchema)]

/-- `detail_validator()`, where the parts above are written inline. -/
def detailValidator : Schema := .closed detailRequired detailProperties

/-! ## The validator against the derives -/

section Language

variable {T : Type} {time : Codec Bson T} {dates : Int64 → Prop}
  (describesTime : Describes (.ofType [.date]) time.Spells dates)

include describesTime

theorem describes_note : Describes noteSchema (Note.codec time).Spells dates :=
  describes_struct (Note.table time) false
    (.field rfl describes_str (by simp) <|
      .field rfl describes_str (by simp) <|
      .field rfl describesTime (by simp) .nil)
    (by simp) (by simp [Note.table]) (by simp [Note.table])

theorem describes_source : Describes sourceSchema (Source.codec time).Spells dates :=
  describes_struct (Source.table time) false
    (.field rfl describes_str (by simp) <|
      .field rfl describes_strOrNull (by simp) <|
      .field rfl describesTime (by simp) .nil)
    (by simp) (by simp [Source.table]) (by simp [Source.table])

omit describesTime in
theorem describes_contact : Describes contactSchema (Contact.codec Bson).Spells dates :=
  describes_struct (Contact.table Bson) false
    (.field rfl describes_str (by simp) <|
      .field rfl describes_strOrNull (by simp) <|
      .field rfl describes_strOrNull (by simp) <|
      .field rfl describes_strOrNull (by simp) .nil)
    (by simp) (by simp [Contact.table]) (by simp [Contact.table])

/-- The guard of the `schema_version` property on the rows of `TaskDetail`. -/
theorem describedBy_detail :
    ∃ P, DescribedBy (detailProperties) detailRequired dates (TaskDetail.table time).fields P ∧
      ∀ d : TaskDetail T, P ((TaskDetail.table time).toRow d) ↔ 1 ≤ d.schemaVersion.toInt :=
  ⟨_, .field rfl describes_long (by simp [detailRequired]) <|
    .guarded rfl (describes_atLeast_int 1) (by simp) (by simp [detailRequired]) <|
    .field rfl describes_str (by simp [detailRequired]) <|
    .field rfl (describes_arrayOf (describes_note describesTime)) (by simp [detailRequired]) <|
    .field rfl (describes_arrayOf (describes_source describesTime)) (by simp [detailRequired]) <|
    .field rfl (describes_arrayOf describes_contact) (by simp [detailRequired]) <|
    .field rfl describes_strOrNull (by simp [detailRequired]) <|
    .field rfl describesTime (by simp [detailRequired]) <|
    .field rfl describesTime (by simp [detailRequired]) .nil,
    fun d => by simp [TaskDetail.table]⟩

omit describesTime

/-- The document spells `d`: it is, up to key order, the serde encoding of `d` from
which keys holding the value their absence stands for may have been left out, here
and inside the array elements, and to which an ObjectId `_id` may have been
added.  A timestamp stands there as the codec `time` spells it: under
`DateCodec.codec` as the one date it is written as, under `DateCodec.reading` as any
date read as it. -/
def SpelledBy (time : Codec Bson T) (d : TaskDetail T) (doc : Bson) : Prop :=
  ∃ es parts id, doc = .document es ∧ es.Perm (id ++ parts) ∧
    (TaskDetail.table time).fields.Spells ((TaskDetail.table time).toRow d) parts ∧
    (id = [] ∨ ∃ oid, id = [("_id", .objectId oid)])

/-- The one property the struct does not have is `_id`, and distinct keys admit it
once. -/
theorem foreign_properties {others : List (String × Bson)} :
    ((others.map Prod.fst).Nodup ∧
      ∀ e ∈ others, e.1 ∉ (TaskDetail.table time).fields.names ∧ e.2.Regular dates ∧
        ∃ s, detailProperties.lookup e.1 = some s ∧ s.accepts e.2 = true) ↔
      others = [] ∨ ∃ oid, others = [("_id", .objectId oid)] := by
  constructor
  · rintro ⟨distinct, around⟩
    have only : ∀ e ∈ others, ∃ oid, e = ("_id", .objectId oid) := by
      rintro ⟨k, v⟩ member
      obtain ⟨foreign, -, s, found, accepted⟩ := around _ member
      obtain ⟨before, after, listed, -⟩ := List.lookup_eq_some_iff.mp found
      have inProperties : (k, s) ∈ detailProperties := by simp [listed]
      simp only [TaskDetail.table, Fields.names, Field.required_name, Field.defaulted_name,
        defaultedText_name, List.mem_cons, List.not_mem_nil, or_false, not_or] at foreign
      simp only [detailProperties, List.mem_cons, Prod.mk.injEq, List.not_mem_nil, or_false,
        foreign, false_and, or_false] at inProperties
      obtain ⟨rfl, rfl⟩ := inProperties
      have typed := Schema.accepts_ofType.mp accepted
      cases v with
      | objectId oid => exact ⟨oid, rfl⟩
      | _ => simp [Bson.type] at typed
    rcases others with - | ⟨e, - | ⟨f, rest⟩⟩
    · exact .inl rfl
    · obtain ⟨oid, rfl⟩ := only e (.head _)
      exact .inr ⟨oid, rfl⟩
    · obtain ⟨oid, rfl⟩ := only e (.head _)
      obtain ⟨oid', rfl⟩ := only f (.tail _ (.head _))
      simp at distinct
  · rintro (rfl | ⟨oid, rfl⟩)
    · simp
    · simp only [List.map_cons, List.map_nil, List.nodup_cons, List.not_mem_nil, not_false_eq_true,
        List.nodup_nil, and_self, List.mem_singleton, forall_eq, true_and]
      exact ⟨by simp [TaskDetail.table], ⟨trivial, trivial⟩, _, rfl, by
        simp [Schema.accepts_ofType, Bson.type]⟩

include describesTime in
/-- **The spelled documents are the accepted ones.** -/
theorem spelledBy_iff_accepts {doc : Bson} :
    (∃ d, 1 ≤ d.schemaVersion.toInt ∧ SpelledBy time d doc) ↔
      detailValidator.accepts doc = true ∧ doc.Regular dates := by
  obtain ⟨P, described, guard⟩ := describedBy_detail describesTime
  rw [detailValidator, described.accepts_closed_iff (TaskDetail.table time).distinct
    (by simp [detailRequired, TaskDetail.table])]
  constructor
  · rintro ⟨d, version, es, parts, id, rfl, perm, spelled, added⟩
    obtain ⟨distinct, around⟩ := foreign_properties.mpr added
    exact ⟨_, es, parts, id, (guard d).mpr version, rfl, perm, spelled, distinct, around⟩
  · rintro ⟨row, es, parts, id, guarded, rfl, perm, spelled, distinct, around⟩
    refine ⟨(TaskDetail.table time).ofRow row, (guard _).mp ?_, es, parts, id, rfl, perm, ?_,
      foreign_properties.mp ⟨distinct, around⟩⟩
    · rwa [(TaskDetail.table time).toRow_ofRow]
    · rwa [(TaskDetail.table time).toRow_ofRow]

/-- The decoder reads a spelling as the value it spells. -/
theorem SpelledBy.decode {d : TaskDetail T} {doc : Bson} (spelled : SpelledBy time d doc) :
    (TaskDetail.codec time).decode doc = .ok d := by
  obtain ⟨es, parts, id, rfl, perm, spelled, added⟩ := spelled
  have around := (@foreign_properties _ time (fun _ => True) id).mpr added
  exact (TaskDetail.table time).decode_spells_around perm spelled fun e member =>
    (around.2 e member).1

/-- What the derive writes is a spelling. -/
theorem spelledBy_encode (time : Codec Bson T) (d : TaskDetail T) :
    SpelledBy time d ((TaskDetail.codec time).encode d) :=
  ⟨_, _, [], rfl, .refl _, Fields.spells_entries _ _, .inl rfl⟩

end Language

/-! ## Dates that are written, and dates that are read -/

section Dates

variable {T : Type} (c : DateCodec T)

/-- What a detail is read as does not depend on which dates are said to spell a
timestamp. -/
theorem decode_reading (doc : Bson) :
    (TaskDetail.codec c.reading).decode doc = (TaskDetail.codec c.codec).decode doc := by
  have date : ∀ name, (Field.required name c.reading).ReadsAlike (.required name c.codec) :=
    fun _ => ⟨rfl, rfl, rfl, rfl⟩
  have note : (Note.codec c.reading).decode = (Note.codec c.codec).decode := by
    funext v
    exact Fields.ReadAlike.decode (.cons (.refl _) <| .cons (.refl _) <| .cons (date _) .nil) _ v
  have source : (Source.codec c.reading).decode = (Source.codec c.codec).decode := by
    funext v
    exact Fields.ReadAlike.decode (.cons (.refl _) <| .cons (.refl _) <| .cons (date _) .nil) _ v
  -- an array is read element by element
  have array : ∀ {α : Type} (name : String) {r s : Codec Bson α} (same : r.decode = s.decode),
      (Field.defaulted name r.list []).ReadsAlike (.defaulted name s.list []) := by
    intro α name r s same
    exact ⟨rfl, by simp only [Field.defaulted, Field.written, Codec.list, same], rfl, rfl⟩
  exact Fields.ReadAlike.decode (.cons (.refl _) <| .cons (.refl _) <| .cons (.refl _) <|
    .cons (array _ note) <| .cons (array _ source) <| .cons (.refl _) <| .cons (.refl _) <|
    .cons (date _) <| .cons (date _) .nil) _ doc

/-- A document with none of the optional keys spells the value with every default. -/
theorem spelledBy_required (taskId : TaskId) (version : Int32) {created updated : T}
    {createdAt updatedAt : Int64} (readCreated : c.read createdAt = some created)
    (readUpdated : c.read updatedAt = some updated)
    {es id : List (String × Bson)} (added : id = [] ∨ ∃ oid, id = [("_id", .objectId oid)])
    (perm : es.Perm (id ++ [("task_id", .int64 taskId), ("schema_version", .int32 version),
      ("created_at", .dateTime createdAt), ("updated_at", .dateTime updatedAt)])) :
    SpelledBy c.reading
      { taskId, schemaVersion := version, description := "", notes := [], sources := [],
        contacts := [], summary := none, createdAt := created, updatedAt := updated }
      (.document es) := by
  refine ⟨es, _, id, rfl, perm, ?_, added⟩
  -- the first two keys are there, the five defaulted ones are not, the last two are
  refine .inl ⟨_, _, rfl, rfl, ?_⟩
  refine .inl ⟨_, _, rfl, rfl, ?_⟩
  refine .inr ⟨rfl, .inr ⟨rfl, .inr ⟨rfl, .inr ⟨rfl, .inr ⟨rfl, ?_⟩⟩⟩⟩⟩
  refine .inl ⟨_, _, rfl, ⟨_, rfl, readCreated⟩, ?_⟩
  exact .inl ⟨_, _, rfl, ⟨_, rfl, readUpdated⟩, rfl⟩

variable {c}

/-- What is read from an accepted document has a version the validator admits: the one
entry for it is accepted, and it has no default. -/
theorem version_of_accepted {time : Codec Bson T} {doc : Bson} {d : TaskDetail T}
    (accepted : detailValidator.accepts doc = true)
    (decoded : (TaskDetail.codec time).decode doc = .ok d) : 1 ≤ d.schemaVersion.toInt := by
  rw [detailValidator, Schema.accepts_closed] at accepted
  obtain ⟨es, rfl, -, each⟩ := accepted
  obtain ⟨-, version, -⟩ := (((TaskDetail.table time).decode_entries_eq_ok false rfl).mp decoded).1
  rcases version with ⟨v, once, read⟩ | ⟨-, default⟩
  · have written : ("schema_version", v) ∈ es := by
      rw [← mem_valuesAt]
      exact once ▸ List.mem_singleton_self v
    obtain ⟨s, found, typed⟩ := each _ written
    cases (show detailProperties.lookup "schema_version" = some (.atLeast .int 1) from rfl).symm.trans
      found
    obtain ⟨n, rfl, above⟩ := Schema.accepts_atLeast_int.mp typed
    have same : (Codec.i32 Bson).decode (.int32 n) = .ok d.schemaVersion := read
    rw [show (.int32 n : Bson) = (Codec.i32 Bson).encode n from rfl, Codec.decode_encode] at same
    cases same
    exact above
  · cases default

/-- A version the validator admits is written so that it accepts it. -/
theorem accepts_encode {d : TaskDetail T} (version : 1 ≤ d.schemaVersion.toInt) :
    detailValidator.accepts ((TaskDetail.codec c.codec).encode d) = true :=
  ((spelledBy_iff_accepts (describes_date c)).mp ⟨d, version, spelledBy_encode c.codec d⟩).1

variable (c)

/-- **The validator and the document types describe the same language.**  An accepted
document all of whose dates are written for some timestamp is the encoding of the value
it decodes to, up to key order, keys at their default and `_id`; one with other dates
that are read is so but for these dates.  Whatever an accepted document decodes to,
written back it is accepted and decodes to itself; and one with none of the optional
keys decodes to the defaults. -/
theorem detail_language (doc : Bson) :
    (detailValidator.accepts doc = true ∧ doc.DistinctKeys ∧ doc.DatesIn c.Written ↔
        ∃ d, 1 ≤ d.schemaVersion.toInt ∧ SpelledBy c.codec d doc) ∧
      (detailValidator.accepts doc = true ∧ doc.DistinctKeys ∧ doc.DatesIn c.Readable ↔
        ∃ d, 1 ≤ d.schemaVersion.toInt ∧ SpelledBy c.reading d doc) ∧
      (∀ d, SpelledBy c.codec d doc ∨ SpelledBy c.reading d doc →
        (TaskDetail.codec c.codec).decode doc = .ok d) ∧
      (detailValidator.accepts doc = true →
        ∀ d, (TaskDetail.codec c.codec).decode doc = .ok d →
          1 ≤ d.schemaVersion.toInt ∧
            detailValidator.accepts ((TaskDetail.codec c.codec).encode d) = true ∧
            (TaskDetail.codec c.codec).decode ((TaskDetail.codec c.codec).encode d) = .ok d) ∧
      ∀ (taskId : TaskId) (version : Int32) (created updated : T) (createdAt updatedAt : Int64)
          (es id : List (String × Bson)),
        c.read createdAt = some created → c.read updatedAt = some updated →
        (id = [] ∨ ∃ oid, id = [("_id", .objectId oid)]) →
        es.Perm (id ++ [("task_id", .int64 taskId), ("schema_version", .int32 version),
          ("created_at", .dateTime createdAt), ("updated_at", .dateTime updatedAt)]) →
        (TaskDetail.codec c.codec).decode (.document es) = .ok
          { taskId, schemaVersion := version, description := "", notes := [], sources := [],
            contacts := [], summary := none, createdAt := created, updatedAt := updated } := by
  refine ⟨(spelledBy_iff_accepts (describes_date c)).symm,
    (spelledBy_iff_accepts (describes_readable c)).symm, ?_, ?_, ?_⟩
  · rintro d (spelled | spelled)
    · exact spelled.decode
    · rw [← decode_reading]
      exact spelled.decode
  · intro accepted d decoded
    have version := version_of_accepted accepted decoded
    exact ⟨version, accepts_encode version, Codec.decode_encode _ d⟩
  · intro taskId version created updated createdAt updatedAt es id readCreated readUpdated added
      perm
    rw [← decode_reading]
    exact (spelledBy_required c taskId version readCreated readUpdated added perm).decode

end Dates

/-! ## Dates no timestamp is written as

chrono's `DateTime<Utc>` covers fewer milliseconds than a BSON date, and the
driver's helper reads a date outside that range as the nearest end of it. -/

def chronoMin : Int64 := -8334601228800000

def chronoMax : Int64 := 8210266876799999

/-- The values of `DateTime<Utc>` that are a whole number of milliseconds. -/
abbrev ChronoMillis := { n : Int64 // chronoMin ≤ n ∧ n ≤ chronoMax }

/-- `bson::serde_helpers::chrono_datetime_as_bson_datetime` on timestamps of whole
milliseconds.  A BSON date has no room for more: of a finer timestamp the helper writes the
milliseconds and drops the rest, so only these are read back unchanged. -/
def chronoDatetimeAsBsonDatetime : DateCodec ChronoMillis where
  write t := t.val
  read n :=
    if h : chronoMin ≤ n ∧ n ≤ chronoMax then some ⟨n, h⟩
    else if n < chronoMin then some ⟨chronoMin, by decide⟩
    else some ⟨chronoMax, by decide⟩
  read_write t := by simp [t.property]

/-- The four required keys, in another order and with an `_id`. -/
def bareDocument : Bson :=
  .document [("updated_at", .dateTime 5), ("_id", .objectId 7), ("schema_version", .int32 1),
    ("created_at", .dateTime 3), ("task_id", .int64 1)]

/-- A document with the last BSON date, some 292 million years from now. -/
def farDocument : Bson :=
  .document [("task_id", .int64 1), ("schema_version", .int32 1),
    ("created_at", .dateTime Int64.maxValue), ("updated_at", .dateTime 0)]

/-- The one is the encoding of a detail; the other is read as one, which written back is
accepted. -/
theorem bare_document_spelled :
    (∃ d, 1 ≤ d.schemaVersion.toInt ∧
        SpelledBy chronoDatetimeAsBsonDatetime.codec d bareDocument) ∧
      ∃ d, (TaskDetail.codec chronoDatetimeAsBsonDatetime.codec).decode farDocument = .ok d ∧
        d.createdAt.val = chronoMax ∧
        detailValidator.accepts
          ((TaskDetail.codec chronoDatetimeAsBsonDatetime.codec).encode d) = true := by
  constructor
  · refine (detail_language chronoDatetimeAsBsonDatetime bareDocument).1.mp ⟨by decide, ?_, ?_⟩
    · simp [bareDocument, Bson.DistinctKeys, Bson.DistinctKeysEntries]
    · exact ⟨⟨⟨5, by decide⟩, rfl⟩, trivial, trivial, ⟨⟨3, by decide⟩, rfl⟩, trivial, trivial⟩
  · obtain ⟨-, -, -, back, -⟩ := detail_language chronoDatetimeAsBsonDatetime farDocument
    exact ⟨_, rfl, rfl, (back (by decide) _ rfl).2.1⟩

/-- The validator accepts a date chrono cannot hold, and no `TaskDetail` is written
so. -/
theorem far_document_accepted :
    ¬ ∀ (T : Type) (c : DateCodec T) (doc : Bson), doc.DistinctKeys →
      (detailValidator.accepts doc = true ↔
        ∃ d, 1 ≤ d.schemaVersion.toInt ∧ SpelledBy c.codec d doc) := by
  intro claimed
  have accepted : detailValidator.accepts farDocument = true := by decide
  have distinct : farDocument.DistinctKeys := by
    simp [farDocument, Bson.DistinctKeys, Bson.DistinctKeysEntries]
  have spelled := (claimed _ chronoDatetimeAsBsonDatetime farDocument distinct).mp accepted
  obtain ⟨-, -, inRange⟩ := (spelledBy_iff_accepts (describes_date _)).mp spelled
  rw [farDocument, Bson.DatesIn, Bson.datesInEntries_iff] at inRange
  obtain ⟨t, last⟩ := inRange ("created_at", .dateTime Int64.maxValue) (by simp)
  have bound := t.property.2
  rw [show t.val = Int64.maxValue from last.symm] at bound
  exact absurd bound (by decide)

/-! ## The derives as they stand

`detail.rs` names no codec for its timestamps, so they take chrono's default serde
form. -/

/-- No accepted document decodes: `created_at` is a date in the one and a text in
the other. -/
theorem accepted_not_decoded {T : Type} (form : TextForm T) {doc : Bson}
    (accepted : detailValidator.accepts doc = true) (d : TaskDetail T) :
    (TaskDetail.codec (isoTime Bson form)).decode doc ≠ .ok d := by
  intro decoded
  rw [detailValidator, Schema.accepts_closed] at accepted
  obtain ⟨es, rfl, -, each⟩ := accepted
  obtain ⟨-, -, -, -, -, -, -, createdAt, -⟩ :=
    (((TaskDetail.table (isoTime Bson form)).decode_entries_eq_ok false rfl).mp decoded).1
  rcases createdAt with ⟨v, once, read⟩ | ⟨-, default⟩
  · have written : ("created_at", v) ∈ es := by
      rw [← mem_valuesAt]
      exact once ▸ List.mem_singleton_self v
    obtain ⟨s, found, typed⟩ := each _ written
    cases (show detailProperties.lookup "created_at" = some (.ofType [.date]) from rfl).symm.trans
      found
    rw [Schema.accepts_ofType] at typed
    cases v with
    | dateTime millis => cases read
    | _ => simp [Bson.type] at typed
  · cases default

/-- **Nothing the program writes is accepted**, whatever the textual form of a
timestamp. -/
theorem default_timestamps_refused {T : Type} (form : TextForm T) (d : TaskDetail T) :
    detailValidator.accepts ((TaskDetail.codec (isoTime Bson form)).encode d) = false := by
  rw [← Bool.not_eq_true]
  intro accepted
  exact accepted_not_decoded form accepted d (Codec.decode_encode _ d)

/-- The empty detail of task 1 is refused. -/
theorem empty_detail_refused :
    ¬ ∀ (T : Type) (form : TextForm T) (d : TaskDetail T), d.schemaVersion = schemaVersion →
      detailValidator.accepts ((TaskDetail.codec (isoTime Bson form)).encode d) = true := by
  intro claimed
  have accepted := claimed String .verbatim (.emptyFor 1 "2026-07-28T14:02:11Z") rfl
  exact absurd accepted (by decide)

end CrewList.Store
