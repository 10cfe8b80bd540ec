/-
# CrewList.Theory.JsonSchema -- document validation, and agreement with a codec

`Schema.accepts` interprets the keywords of a `$jsonSchema` validator: each
keyword constrains the values of its own type and lets others pass, and a schema
is the conjunction of its keywords.  `minimum` is read on the two integer types.

`Describes s R dates` says that a schema and a relation between values and
documents describe one language: the documents that spell some value are exactly
the accepted ones with distinct keys all of whose dates are in `dates`.  The rules
of this relation follow the shape of a schema:

* `describes_str`, `describes_strOrNull`, `describes_long` for the scalars, and
  `describes_date` or `describes_readable` for dates that are written or read;
* `describes_arrayOf` for arrays of a described element;
* `describes_struct` for a closed object against a derived struct, from
  `DescribedBy`: each field's property describes the field, and a key is
  required exactly when the field has no value for its absence.

`accepts_closed_iff` is the last rule with room for listed properties the
struct does not have.
-/
import CrewList.Theory.Bson

namespace CrewList.Theory.Serde

set_option autoImplicit false

/-- The keywords of one schema object.  No `bsonType` list means any type. -/
inductive Schema where
  | keywords (bsonType : Option (List BsonType)) (minimum : Option Int)
      (required : List String) (additionalProperties : Bool)
      (properties : List (String × Schema)) (items : Option Schema)

namespace Schema

/-- `bsonType`, a single alias or a list of alternatives. -/
def ofType (types : List BsonType) : Schema :=
  .keywords (some types) none [] true [] none

/-- `bsonType` with `minimum`. -/
def atLeast (type : BsonType) (minimum : Int) : Schema :=
  .keywords (some [type]) (some minimum) [] true [] none

/-- `bsonType: "array"` with `items`. -/
def arrayOf (items : Schema) : Schema :=
  .keywords (some [.array]) none [] true [] (some items)

/-- `bsonType: "object"` with `required`, `properties` and
`additionalProperties: false`. -/
def closed (required : List String) (properties : List (String × Schema)) : Schema :=
  .keywords (some [.object]) none required false properties none

/-- `minimum`, on the integer types. -/
def aboveMinimum (minimum : Option Int) : Bson → Bool
  | .int32 n => minimum.all (· ≤ n.toInt)
  | .int64 n => minimum.all (· ≤ n.toInt)
  | _ => true

mutual

def accepts : Schema → Bson → Bool
  | .keywords bsonType minimum required additionalProperties properties items, v =>
      bsonType.all (·.contains v.type) && aboveMinimum minimum v &&
        match v with
        | .document es =>
            (required.all fun k => es.any fun e => e.1 = k) &&
              es.all fun e => acceptsProperty additionalProperties properties e.1 e.2
        | .array vs => vs.all fun v => acceptsItem items v
        | _ => true

/-- The schema `properties` gives a key, or `additionalProperties` for a key it
does not list. -/
def acceptsProperty (additionalProperties : Bool) :
    List (String × Schema) → String → Bson → Bool
  | [], _, _ => additionalProperties
  | (name, s) :: rest, k, v =>
      if name = k then s.accepts v else acceptsProperty additionalProperties rest k v

def acceptsItem : Option Schema → Bson → Bool
  | none, _ => true
  | some s, v => s.accepts v

end

/-! ## What the combinators accept -/

theorem accepts_ofType {types : List BsonType} {v : Bson} :
    (ofType types).accepts v = true ↔ v.type ∈ types := by
  cases v <;> simp [ofType, accepts, aboveMinimum, acceptsProperty, acceptsItem]

theorem accepts_atLeast_int {minimum : Int} {v : Bson} :
    (atLeast .int minimum).accepts v = true ↔ ∃ n, v = .int32 n ∧ minimum ≤ n.toInt := by
  cases v <;> simp [atLeast, accepts, aboveMinimum, Bson.type]

theorem accepts_arrayOf {s : Schema} {v : Bson} :
    (arrayOf s).accepts v = true ↔ ∃ vs, v = .array vs ∧ ∀ w ∈ vs, s.accepts w = true := by
  cases v <;> simp [arrayOf, accepts, aboveMinimum, acceptsItem, Bson.type]

/-- A closed object's keys are all listed, each with an accepted value. -/
theorem acceptsProperty_false {properties : List (String × Schema)} {k : String} {v : Bson} :
    acceptsProperty false properties k v = true ↔
      ∃ s, properties.lookup k = some s ∧ s.accepts v = true := by
  induction properties with
  | nil => simp [acceptsProperty]
  | cons p rest ih =>
      obtain ⟨name, s⟩ := p
      by_cases hit : name = k
      · simp [acceptsProperty, hit]
      · have miss : (k == name) = false := by simpa using Ne.symm hit
        simp [acceptsProperty, hit, List.lookup_cons, miss, ih]

theorem accepts_closed {required : List String} {properties : List (String × Schema)}
    {v : Bson} :
    (closed required properties).accepts v = true ↔
      ∃ es, v = .document es ∧ (∀ k ∈ required, k ∈ es.map Prod.fst) ∧
        ∀ e ∈ es, ∃ s, properties.lookup e.1 = some s ∧ s.accepts e.2 = true := by
  cases v <;>
    simp [closed, accepts, aboveMinimum, acceptsProperty_false, Bson.type]

end Schema

/-! ## Agreement -/

/-- The documents a relation and a schema are compared on. -/
def Bson.Regular (dates : Int64 → Prop) (v : Bson) : Prop := v.DistinctKeys ∧ v.DatesIn dates

theorem Bson.regular_array {dates : Int64 → Prop} {vs : List Bson} :
    (Bson.array vs).Regular dates ↔ ∀ v ∈ vs, v.Regular dates := by
  simp only [Regular, DistinctKeys, DatesIn, distinctKeysList_iff, datesInList_iff]
  exact ⟨fun both v member => ⟨both.1 v member, both.2 v member⟩,
    fun each => ⟨fun v member => (each v member).1, fun v member => (each v member).2⟩⟩

theorem Bson.regular_document {dates : Int64 → Prop} {es : List (String × Bson)} :
    (Bson.document es).Regular dates ↔
      (es.map Prod.fst).Nodup ∧ ∀ e ∈ es, e.2.Regular dates := by
  simp only [Regular, DistinctKeys, DatesIn, distinctKeysEntries_iff, datesInEntries_iff]
  exact ⟨fun ⟨⟨keys, inner⟩, dates⟩ => ⟨keys, fun e member => ⟨inner e member, dates e member⟩⟩,
    fun ⟨keys, each⟩ => ⟨⟨keys, fun e member => (each e member).1⟩,
      fun e member => (each e member).2⟩⟩

/-- The schema and the relation describe one language, up to the dates. -/
def Describes {α : Type} (s : Schema) (R : α → Bson → Prop) (dates : Int64 → Prop) : Prop :=
  ∀ v, (∃ a, R a v) ↔ s.accepts v = true ∧ v.Regular dates

section Scalars

variable {dates : Int64 → Prop}

theorem describes_str : Describes (.ofType [.string]) (Codec.str Bson).Spells dates := by
  intro v
  rw [Schema.accepts_ofType]
  constructor
  · rintro ⟨s, rfl⟩
    exact ⟨.head _, trivial, trivial⟩
  · rintro ⟨typed, -⟩
    cases v with
    | string s => exact ⟨s, rfl⟩
    | _ => simp [Bson.type] at typed

theorem describes_strOrNull :
    Describes (.ofType [.string, .null]) ((Codec.str Bson).option (Codec.str_nonNull Bson)).Spells
      dates := by
  intro v
  rw [Schema.accepts_ofType]
  constructor
  · rintro ⟨_ | s, rfl⟩
    · exact ⟨by simp [serializeNone, Bson.type], trivial, trivial⟩
    · exact ⟨by simp [serializeStr, Bson.type], trivial, trivial⟩
  · rintro ⟨typed, -⟩
    cases v with
    | string s => exact ⟨some s, rfl⟩
    | null => exact ⟨none, rfl⟩
    | _ => simp [Bson.type] at typed

theorem describes_long : Describes (.ofType [.long]) (Codec.i64 Bson).Spells dates := by
  intro v
  rw [Schema.accepts_ofType]
  constructor
  · rintro ⟨n, rfl⟩
    exact ⟨.head _, trivial, trivial⟩
  · rintro ⟨typed, -⟩
    cases v with
    | int64 n => exact ⟨n, rfl⟩
    | _ => simp [Bson.type] at typed

theorem describes_atLeast_int (minimum : Int) :
    Describes (.atLeast .int minimum)
      (fun n v => minimum ≤ n.toInt ∧ (Codec.i32 Bson).Spells n v) dates := by
  intro v
  rw [Schema.accepts_atLeast_int]
  constructor
  · rintro ⟨n, above, rfl⟩
    exact ⟨⟨n, rfl, above⟩, trivial, trivial⟩
  · rintro ⟨⟨n, rfl, above⟩, -⟩
    exact ⟨n, above, rfl⟩

theorem describes_date {T : Type} (c : DateCodec T) :
    Describes (.ofType [.date]) c.codec.Spells c.Written := by
  intro v
  rw [Schema.accepts_ofType]
  constructor
  · rintro ⟨t, rfl⟩
    exact ⟨.head _, trivial, t, rfl⟩
  · rintro ⟨typed, -, inRange⟩
    cases v with
    | dateTime millis =>
        obtain ⟨t, rfl⟩ := inRange
        exact ⟨t, rfl⟩
    | _ => simp [Bson.type] at typed

theorem describes_readable {T : Type} (c : DateCodec T) :
    Describes (.ofType [.date]) c.reading.Spells c.Readable := by
  intro v
  rw [Schema.accepts_ofType]
  constructor
  · rintro ⟨t, millis, rfl, read⟩
    exact ⟨.head _, trivial, t, read⟩
  · rintro ⟨typed, -, inRange⟩
    cases v with
    | dateTime millis =>
        obtain ⟨t, read⟩ := inRange
        exact ⟨t, millis, rfl, read⟩
    | _ => simp [Bson.type] at typed

end Scalars

theorem describes_arrayOf {α : Type} {s : Schema} {c : Codec Bson α} {dates : Int64 → Prop}
    (element : Describes s c.Spells dates) :
    Describes (.arrayOf s) c.list.Spells dates := by
  -- element by element, a list of documents spells a list of values
  have pointwise : ∀ vs : List Bson, (∃ as, List.Forall₂ c.Spells as vs) ↔
      ∀ v ∈ vs, s.accepts v = true ∧ v.Regular dates := by
    intro vs
    induction vs with
    | nil => exact ⟨fun _ => by simp, fun _ => ⟨[], .nil⟩⟩
    | cons v vs ih =>
        rw [List.forall_mem_cons, ← ih, ← element v]
        constructor
        · rintro ⟨_, _ | ⟨head, tail⟩⟩
          exact ⟨⟨_, head⟩, _, tail⟩
        · rintro ⟨⟨a, head⟩, as, tail⟩
          exact ⟨a :: as, .cons head tail⟩
  intro v
  rw [Schema.accepts_arrayOf]
  constructor
  · rintro ⟨as, vs, rfl, spelled⟩
    have each := (pointwise vs).mp ⟨as, spelled⟩
    exact ⟨⟨vs, rfl, fun w member => (each w member).1⟩,
      Bson.regular_array.mpr fun w member => (each w member).2⟩
  · rintro ⟨⟨vs, rfl, accepted⟩, regular⟩
    have inner := Bson.regular_array.mp regular
    obtain ⟨as, spelled⟩ := (pointwise vs).mpr fun w member =>
      ⟨accepted w member, inner w member⟩
    exact ⟨as, vs, rfl, spelled⟩

/-! ## Closed objects against derived structs -/

/-- Each field's property describes the field, and the field's key is required
exactly when the field has no value for its absence.  A property may describe only
the values satisfying a guard, as a `minimum` does; the guards of all fields make
up the guard on rows. -/
inductive DescribedBy (properties : List (String × Schema)) (required : List String)
    (dates : Int64 → Prop) : {ρ σ : Type} → Fields Bson ρ σ → (ρ → Prop) → Prop where
  | nil : DescribedBy properties required dates .nil fun _ => True
  | guarded {α β σ : Type} {f : Field Bson α} {rest : Fields Bson β σ} {p : α → Prop}
      {P : β → Prop} {s : Schema} (listed : properties.lookup f.name = some s)
      (describes : Describes s (fun a v => p a ∧ f.Spells a v) dates)
      (default : ∀ a, f.absent = some a → p a)
      (needed : f.name ∈ required ↔ f.absent = none)
      (others : DescribedBy properties required dates rest P) :
      DescribedBy properties required dates (.cons f rest) fun row => p row.1 ∧ P row.2

section Structs

variable {properties : List (String × Schema)} {required : List String} {dates : Int64 → Prop}

/-- A field whose property describes all its values. -/
theorem DescribedBy.field {α β σ : Type} {f : Field Bson α} {rest : Fields Bson β σ}
    {P : β → Prop} {s : Schema} (listed : properties.lookup f.name = some s)
    (describes : Describes s f.Spells dates) (needed : f.name ∈ required ↔ f.absent = none)
    (others : DescribedBy properties required dates rest P) :
    DescribedBy properties required dates (.cons f rest) fun row => True ∧ P row.2 :=
  .guarded (p := fun _ => True) listed (by simpa [Describes] using describes)
    (fun _ _ => trivial) needed others

/-- Under distinct keys an entry can be moved to the front. -/
theorem perm_entry_cons {V : Type} {es : List (String × V)} {k : String} {v : V}
    (distinct : (es.map Prod.fst).Nodup) (member : (k, v) ∈ es) :
    es.Perm ((k, v) :: es.filter fun e => e.1 ≠ k) := by
  have parts := List.filter_append_perm (fun e => decide (e.1 = k)) es
  have here : es.filter (fun e => decide (e.1 = k)) = [(k, v)] := by
    have once := valuesAt_of_nodup distinct member
    simp only [valuesAt, List.map_eq_singleton_iff] at once
    obtain ⟨⟨j, w⟩, single, rfl⟩ := once
    have : (j, w) ∈ es.filter fun e => decide (e.1 = k) := by simp [single]
    have named := (List.mem_filter.mp this).2
    simp only [decide_eq_true_eq] at named
    rw [single, named]
  rw [here] at parts
  simpa using parts.symm

/-- Every spelling of a described struct consists of accepted properties, and has
the required keys. -/
theorem DescribedBy.accepts_of_spells {ρ σ : Type} {fs : Fields Bson ρ σ} {P : ρ → Prop}
    (described : DescribedBy properties required dates fs P) {row : ρ} (guard : P row)
    {parts : List (String × Bson)} (spelled : fs.Spells row parts) :
    (∀ e ∈ parts, e.2.Regular dates ∧
        ∃ s, properties.lookup e.1 = some s ∧ s.accepts e.2 = true) ∧
      ∀ k ∈ fs.names, k ∈ required → k ∈ parts.map Prod.fst := by
  induction described generalizing parts with
  | nil => simp [Fields.names, show parts = [] from spelled]
  | guarded listed describes default needed _ ih =>
      obtain ⟨a, row⟩ := row
      rcases spelled with ⟨v, more, rfl, fieldSpelled, spelled⟩ | ⟨default, spelled⟩
      · obtain ⟨each, present⟩ := ih guard.2 spelled
        obtain ⟨accepted, regular⟩ := (describes v).mp ⟨a, guard.1, fieldSpelled⟩
        refine ⟨List.forall_mem_cons.mpr ⟨⟨regular, _, listed, accepted⟩, each⟩, ?_⟩
        intro k known isRequired
        rcases List.mem_cons.mp known with rfl | inRest
        · simp
        · exact List.mem_cons_of_mem _ (present k inRest isRequired)
      · obtain ⟨each, present⟩ := ih guard.2 spelled
        refine ⟨each, fun k known isRequired => ?_⟩
        rcases List.mem_cons.mp known with rfl | inRest
        · rw [needed.mp isRequired] at default
          cases default
        · exact present k inRest isRequired

/-- A document whose required keys are there and whose entries are accepted holds
a spelling of some row, next to entries under other keys. -/
theorem DescribedBy.exists_spelling {ρ σ : Type} {fs : Fields Bson ρ σ} {P : ρ → Prop}
    (described : DescribedBy properties required dates fs P) (names : fs.names.Nodup)
    {es : List (String × Bson)} (distinct : (es.map Prod.fst).Nodup)
    (each : ∀ e ∈ es, e.2.Regular dates ∧
      ∃ s, properties.lookup e.1 = some s ∧ s.accepts e.2 = true)
    (present : ∀ k ∈ fs.names, k ∈ required → k ∈ es.map Prod.fst) :
    ∃ row parts others, P row ∧ es.Perm (others ++ parts) ∧ fs.Spells row parts ∧
      ∀ e ∈ others, e.1 ∉ fs.names := by
  induction described generalizing es with
  | nil => exact ⟨(), [], es, trivial, by simp, rfl, by simp [Fields.names]⟩
  | @guarded _ _ _ f rest p P s listed describes default needed _ ih =>
      simp only [Fields.names, List.nodup_cons] at names
      -- the remaining fields are spelled by the entries under other keys
      have kept : (es.filter fun e => e.1 ≠ f.name).Sublist es := List.filter_sublist
      obtain ⟨row, parts, others, guard, perm, spelled, foreign⟩ := ih names.2
        (distinct.sublist (kept.map Prod.fst))
        (fun e member => each e (kept.subset member))
        (fun k known isRequired => by
          obtain ⟨e, member, rfl⟩ := List.mem_map.mp
            (present k (List.mem_cons_of_mem _ known) isRequired)
          refine List.mem_map.mpr ⟨e, List.mem_filter.mpr ⟨member, ?_⟩, rfl⟩
          have : e.1 ≠ f.name := fun same => names.1 (same ▸ known)
          simpa using this)
      have foreignHere : ∀ e ∈ others, e.1 ∉ (Fields.cons f rest).names := by
        intro e member known
        rcases List.mem_cons.mp known with same | inRest
        · have inFilter := perm.mem_iff.mpr (List.mem_append_left _ member)
          simp [same] at inFilter
        · exact foreign e member inRest
      by_cases here : f.name ∈ es.map Prod.fst
      · obtain ⟨⟨k, v⟩, member, rfl⟩ := List.mem_map.mp here
        obtain ⟨regular, s', listed', accepted⟩ := each _ member
        cases listed.symm.trans listed'
        obtain ⟨a, fieldGuard, fieldSpelled⟩ := (describes v).mpr ⟨accepted, regular⟩
        refine ⟨(a, row), (f.name, v) :: parts, others, ⟨fieldGuard, guard⟩, ?_,
          .inl ⟨v, parts, rfl, fieldSpelled, spelled⟩, foreignHere⟩
        exact (perm_entry_cons distinct member).trans ((perm.cons _).trans
          List.perm_middle.symm)
      · have notRequired : f.name ∉ required := fun isRequired =>
          here (present _ (List.mem_cons_self ..) isRequired)
        obtain ⟨a, absent⟩ := Option.ne_none_iff_exists'.mp (mt needed.mpr notRequired)
        have untouched : es.filter (fun e => e.1 ≠ f.name) = es := by
          refine List.filter_eq_self.mpr fun e member => ?_
          have : e.1 ≠ f.name := fun same => here (List.mem_map.mpr ⟨e, member, same⟩)
          simpa using this
        rw [untouched] at perm
        exact ⟨(a, row), parts, others, ⟨default a absent, guard⟩, perm, .inr ⟨absent, spelled⟩,
          foreignHere⟩

/-- **A closed object against a table of fields**, with room for listed
properties the struct does not have: the documents it accepts are a spelling next
to such properties, under distinct keys. -/
theorem DescribedBy.accepts_closed_iff {ρ σ : Type} {fs : Fields Bson ρ σ} {P : ρ → Prop}
    (described : DescribedBy properties required dates fs P) (names : fs.names.Nodup)
    (needed : ∀ k ∈ required, k ∈ fs.names) {v : Bson} :
    (Schema.closed required properties).accepts v = true ∧ v.Regular dates ↔
      ∃ row es parts others, P row ∧ v = .document es ∧ es.Perm (others ++ parts) ∧
        fs.Spells row parts ∧ (others.map Prod.fst).Nodup ∧
        ∀ e ∈ others, e.1 ∉ fs.names ∧ e.2.Regular dates ∧
          ∃ s, properties.lookup e.1 = some s ∧ s.accepts e.2 = true := by
  rw [Schema.accepts_closed]
  constructor
  · rintro ⟨⟨es, rfl, present, each⟩, regular⟩
    obtain ⟨distinct, inner⟩ := Bson.regular_document.mp regular
    obtain ⟨row, parts, others, guard, perm, spelled, foreign⟩ := described.exists_spelling names
      distinct (fun e member => ⟨inner e member, each e member⟩)
      (fun k _ isRequired => present k isRequired)
    have inDocument : ∀ e ∈ others, e ∈ es := fun e member =>
      perm.mem_iff.mpr (List.mem_append_left _ member)
    have keys := (perm.map Prod.fst).nodup_iff.mp distinct
    rw [List.map_append] at keys
    refine ⟨row, es, parts, others, guard, rfl, perm, spelled, (List.nodup_append.mp keys).1, ?_⟩
    intro e member
    exact ⟨foreign e member, inner e (inDocument e member), each e (inDocument e member)⟩
  · rintro ⟨row, es, parts, others, guard, rfl, perm, spelled, distinct, around⟩
    obtain ⟨each, present⟩ := described.accepts_of_spells guard spelled
    have everywhere : ∀ e ∈ es, e.2.Regular dates ∧
        ∃ s, properties.lookup e.1 = some s ∧ s.accepts e.2 = true := by
      intro e member
      rcases List.mem_append.mp (perm.mem_iff.mp member) with inOthers | inParts
      · exact (around e inOthers).2
      · exact each e inParts
    have keys : (es.map Prod.fst).Nodup := by
      rw [(perm.map Prod.fst).nodup_iff, List.map_append, List.nodup_append]
      refine ⟨distinct, names.sublist spelled.keys, ?_⟩
      rintro k inOthers _ inParts rfl
      obtain ⟨e, member, rfl⟩ := List.mem_map.mp inOthers
      exact (around e member).1 (spelled.keys.subset inParts)
    refine ⟨⟨es, rfl, fun k isRequired => ?_, fun e member => (everywhere e member).2⟩,
      Bson.regular_document.mpr ⟨keys, fun e member => (everywhere e member).1⟩⟩
    have inParts := present k (needed k isRequired) isRequired
    rw [(perm.map Prod.fst).mem_iff, List.map_append]
    exact List.mem_append_right _ inParts

/-- **A closed object against a derived struct**, when the object lists exactly
the struct's keys. -/
theorem describes_struct {S : Type} (t : StructTable Bson S) (deny : Bool) {P : t.Row → Prop}
    (described : DescribedBy properties required dates t.fields P) (unguarded : ∀ row, P row)
    (needed : ∀ k ∈ required, k ∈ t.fields.names)
    (listed : ∀ k ∈ properties.map Prod.fst, k ∈ t.fields.names) :
    Describes (.closed required properties) (t.codec deny).Spells dates := by
  intro v
  rw [described.accepts_closed_iff t.distinct needed]
  constructor
  · rintro ⟨s, es, parts, rfl, perm, spelled⟩
    exact ⟨t.toRow s, es, parts, [], unguarded _, rfl, perm, spelled, .nil, by simp⟩
  · rintro ⟨row, es, parts, others, -, rfl, perm, spelled, -, around⟩
    have noOthers : others = [] := by
      refine List.eq_nil_iff_forall_not_mem.mpr fun e member => ?_
      obtain ⟨foreign, -, s, found, -⟩ := around e member
      obtain ⟨before, after, rfl, -⟩ := List.lookup_eq_some_iff.mp found
      exact foreign (listed e.1 (by simp))
    subst noOthers
    exact ⟨t.ofRow row, es, parts, rfl, perm, by rwa [t.toRow_ofRow]⟩

end Structs

end CrewList.Theory.Serde
