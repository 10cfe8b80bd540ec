/-
# CrewList.Theory.Derive -- what `derive(Serialize, Deserialize)` generates

A struct is a table of fields (`Fields`).  The table is indexed by the row it
describes, the product of the field types, and by the visitor's slots, the
product of `Option`s the generated `visit_map` fills: `__field0: Option<T0>`,
`__field1: Option<T1>`, and so on.  From the table come the generated functions:

* `entries`: the serializer, leaving out what `skip_serializing_if` skips;
* `visitMap`: entries in document order, each stored in its slot, a second
  entry for a full slot refused, an unknown key skipped or (under
  `deny_unknown_fields`) refused, and at the end every empty slot filled by the
  field's default or refused as missing;
* `visitSeq`: the fields by position, the form a struct has inside an array.

`Reads` says without the loop what a document must look like for `visitMap` to
give a row: each field's key at most once with a decodable value, or absent with
a default.  `visitMap_eq_ok` is that the loop computes exactly this, for every
document and every table of distinct names.  That key order does not matter
(`Reads.perm`) and the laws of `StructTable.codec` (every spelling decodes) follow
from it.
-/
import CrewList.Theory.Serde

namespace CrewList.Theory.Serde

set_option autoImplicit false

/-! ## Association lists -/

section Assoc

variable {V : Type}

/-- The values an entry list gives a key, in order. -/
def valuesAt (es : List (String × V)) (k : String) : List V :=
  (es.filter fun e => e.1 = k).map Prod.snd

theorem mem_valuesAt {es : List (String × V)} {k : String} {v : V} :
    v ∈ valuesAt es k ↔ (k, v) ∈ es := by
  simp [valuesAt]

theorem valuesAt_eq_nil {es : List (String × V)} {k : String} :
    valuesAt es k = [] ↔ k ∉ es.map Prod.fst := by
  rw [List.eq_nil_iff_forall_not_mem]
  simp [mem_valuesAt]

@[simp] theorem valuesAt_append (es fs : List (String × V)) (k : String) :
    valuesAt (es ++ fs) k = valuesAt es k ++ valuesAt fs k := by
  simp [valuesAt]

@[simp] theorem valuesAt_cons_self (k : String) (v : V) (es : List (String × V)) :
    valuesAt ((k, v) :: es) k = v :: valuesAt es k := by
  simp [valuesAt]

theorem valuesAt_cons_ne {j k : String} (different : j ≠ k) (v : V) (es : List (String × V)) :
    valuesAt ((j, v) :: es) k = valuesAt es k := by
  simp [valuesAt, different]

/-- A key occurring once has that one value whatever the order of the entries. -/
theorem valuesAt_eq_singleton_of_perm {es fs : List (String × V)} {k : String} {v : V}
    (perm : es.Perm fs) (once : valuesAt es k = [v]) : valuesAt fs k = [v] := by
  have moved : (valuesAt es k).Perm (valuesAt fs k) := (perm.filter _).map _
  rw [once] at moved
  exact List.perm_singleton.mp moved.symm

theorem valuesAt_eq_nil_of_perm {es fs : List (String × V)} {k : String}
    (perm : es.Perm fs) (absent : valuesAt es k = []) : valuesAt fs k = [] := by
  rw [valuesAt_eq_nil] at absent ⊢
  exact fun member => absent ((perm.map Prod.fst).mem_iff.mpr member)

theorem count_keys (es : List (String × V)) (k : String) :
    (es.map Prod.fst).count k = (valuesAt es k).length := by
  rw [List.count, List.countP_map, valuesAt, List.length_map, List.countP_eq_length_filter]
  congr 1

theorem nodup_keys_iff {es : List (String × V)} :
    (es.map Prod.fst).Nodup ↔ ∀ k, (valuesAt es k).length ≤ 1 := by
  simp only [List.nodup_iff_count_le_one, count_keys]

/-- Under distinct keys, an entry is the only value at its key. -/
theorem valuesAt_of_nodup {es : List (String × V)} {k : String} {v : V}
    (distinct : (es.map Prod.fst).Nodup) (member : (k, v) ∈ es) : valuesAt es k = [v] := by
  induction es with
  | nil => cases member
  | cons e es ih =>
      obtain ⟨j, w⟩ := e
      simp only [List.map_cons, List.nodup_cons] at distinct
      rcases List.mem_cons.mp member with same | inRest
      · cases same
        rw [valuesAt_cons_self, valuesAt_eq_nil.mpr distinct.1]
      · have different : j ≠ k := by
          rintro rfl
          exact distinct.1 (List.mem_map.mpr ⟨_, inRest, rfl⟩)
        rw [valuesAt_cons_ne different, ih distinct.2 inRest]

end Assoc

/-! ## One field -/

/-- One field of a derived struct.

`encode` is `none` where `skip_serializing_if` leaves the entry out.  `absent` is
the value `visit_map` uses for a key that never came: the `#[serde(default)]`
value, or `None` for an `Option` field without the attribute, or nothing.
`absentSeq` is the same for `visit_seq`, where only the attribute counts. -/
structure Field (V α : Type) where
  name : String
  encode : α → Option V
  decode : V → Decoded α
  Spells : α → V → Prop
  absent : Option α
  absentSeq : Option α
  spells_encode : ∀ {a v}, encode a = some v → Spells a v
  absent_of_skipped : ∀ {a}, encode a = none → absent = some a
  decode_spells : ∀ {a v}, Spells a v → decode v = .ok a

namespace Field

variable {V α : Type}

/-- A field that is always written. -/
def written (name : String) (c : Codec V α) (absent absentSeq : Option α) : Field V α where
  name := name
  encode a := some (c.encode a)
  decode := c.decode
  Spells := c.Spells
  absent := absent
  absentSeq := absentSeq
  spells_encode {a v} encoded := by
    cases encoded
    exact c.spells_encode a
  absent_of_skipped skipped := by cases skipped
  decode_spells := c.decode_spells

/-- A field with no attribute whose type is not an `Option`. -/
def required (name : String) (c : Codec V α) : Field V α := written name c none none

/-- `#[serde(default)]`, or `#[serde(default = "...")]`. -/
def defaulted (name : String) (c : Codec V α) (default : α) : Field V α :=
  written name c (some default) (some default)

section Options

variable [Deserializer V] [Serializer V] [LawfulFormat V]

/-- An `Option` field with no attribute: written as null, and `None` when its
key is missing. -/
def optional (name : String) (c : Codec V α) (nonNull : c.NonNull) : Field V (Option α) :=
  written name (c.option nonNull) (some none) none

/-- `#[serde(skip_serializing_if = "Option::is_none")]` with no default. -/
def skipNone (name : String) (c : Codec V α) (nonNull : c.NonNull) : Field V (Option α) where
  name := name
  encode a := a.map c.encode
  decode := (c.option nonNull).decode
  Spells := (c.option nonNull).Spells
  absent := some none
  absentSeq := none
  spells_encode {a v} encoded := by
    cases a with
    | none => cases encoded
    | some a =>
        cases encoded
        exact c.spells_encode a
  absent_of_skipped {a} skipped := by
    cases a with
    | none => rfl
    | some a => cases skipped
  decode_spells := (c.option nonNull).decode_spells

@[simp] theorem optional_name (name : String) (c : Codec V α) (nonNull : c.NonNull) :
    (optional name c nonNull).name = name := rfl

@[simp] theorem optional_absent (name : String) (c : Codec V α) (nonNull : c.NonNull) :
    (optional name c nonNull).absent = some none := rfl

@[simp] theorem skipNone_name (name : String) (c : Codec V α) (nonNull : c.NonNull) :
    (skipNone name c nonNull).name = name := rfl

@[simp] theorem skipNone_absent (name : String) (c : Codec V α) (nonNull : c.NonNull) :
    (skipNone name c nonNull).absent = some none := rfl

end Options

@[simp] theorem required_name (name : String) (c : Codec V α) : (required name c).name = name :=
  rfl

@[simp] theorem required_absent (name : String) (c : Codec V α) :
    (required name c).absent = none := rfl

@[simp] theorem defaulted_name (name : String) (c : Codec V α) (default : α) :
    (defaulted name c default).name = name := rfl

@[simp] theorem defaulted_absent (name : String) (c : Codec V α) (default : α) :
    (defaulted name c default).absent = some default := rfl

/-- The end of `visit_map` for one slot: an empty one takes the field's value for
an absent key, or the field is missing. -/
def settle (f : Field V α) : Option α → Decoded α
  | some a => .ok a
  | none =>
      match f.absent with
      | some a => .ok a
      | none => .error (.missingField f.name)

/-- What an entry list must hold for the field to read `a`. -/
def Reads (f : Field V α) (es : List (String × V)) (a : α) : Prop :=
  (∃ v, valuesAt es f.name = [v] ∧ f.decode v = .ok a) ∨
    (valuesAt es f.name = [] ∧ f.absent = some a)

/-- The key once, with a value the codec reads. -/
def ReadsOnce (c : Codec V α) (es : List (String × V)) (k : String) : Prop :=
  ∃ v, valuesAt es k = [v] ∧ c.CanRead v

/-- The key at most once, and then with a value the codec reads. -/
def ReadsAtMostOnce (c : Codec V α) (es : List (String × V)) (k : String) : Prop :=
  valuesAt es k = [] ∨ ReadsOnce c es k

theorem exists_reads_required {name : String} {c : Codec V α} {es : List (String × V)} :
    (∃ a, (required name c).Reads es a) ↔ ReadsOnce c es name := by
  constructor
  · rintro ⟨a, ⟨v, once, read⟩ | ⟨-, default⟩⟩
    · exact ⟨v, once, a, read⟩
    · cases default
  · rintro ⟨v, once, a, read⟩
    exact ⟨a, .inl ⟨v, once, read⟩⟩

theorem exists_reads_defaulted {name : String} {c : Codec V α} {es : List (String × V)}
    (default : α) :
    (∃ a, (defaulted name c default).Reads es a) ↔ ReadsAtMostOnce c es name := by
  constructor
  · rintro ⟨a, ⟨v, once, read⟩ | ⟨absent, -⟩⟩
    · exact .inr ⟨v, once, a, read⟩
    · exact .inl absent
  · rintro (absent | ⟨v, once, a, read⟩)
    · exact ⟨default, .inr ⟨absent, rfl⟩⟩
    · exact ⟨a, .inl ⟨v, once, read⟩⟩

/-- Under distinct keys: whatever the key's entry holds decodes to `a`, and without
one `a` is the value of an absent key. -/
theorem reads_iff_of_nodup {f : Field V α} {es : List (String × V)} {a : α}
    (distinct : (es.map Prod.fst).Nodup) :
    f.Reads es a ↔ (∀ v, (f.name, v) ∈ es → f.decode v = .ok a) ∧
      (f.name ∉ es.map Prod.fst → f.absent = some a) := by
  constructor
  · rintro (⟨v, once, decoded⟩ | ⟨absent, default⟩)
    · have here : (f.name, v) ∈ es := by
        rw [← mem_valuesAt, once]
        exact .head _
      refine ⟨fun w member => ?_, fun missing => ?_⟩
      · rw [← mem_valuesAt, once, List.mem_singleton] at member
        rwa [member]
      · exact absurd (List.mem_map_of_mem (f := Prod.fst) here) missing
    · refine ⟨fun w member => ?_, fun _ => default⟩
      rw [← mem_valuesAt, absent] at member
      cases member
  · rintro ⟨present, missing⟩
    by_cases here : f.name ∈ es.map Prod.fst
    · obtain ⟨⟨k, v⟩, member, same⟩ := List.mem_map.mp here
      cases same
      exact .inl ⟨v, valuesAt_of_nodup distinct member, present v member⟩
    · exact .inr ⟨valuesAt_eq_nil.mpr here, missing here⟩

theorem Reads.unique {f : Field V α} {es : List (String × V)} {a b : α}
    (left : f.Reads es a) (right : f.Reads es b) : a = b := by
  rcases left with ⟨v, once, decoded⟩ | ⟨absent, default⟩ <;>
    rcases right with ⟨w, once', decoded'⟩ | ⟨absent', default'⟩ <;>
    simp_all

theorem Reads.perm {f : Field V α} {es fs : List (String × V)} {a : α}
    (reads : f.Reads es a) (perm : es.Perm fs) : f.Reads fs a := by
  rcases reads with ⟨v, once, decoded⟩ | ⟨absent, default⟩
  · exact .inl ⟨v, valuesAt_eq_singleton_of_perm perm once, decoded⟩
  · exact .inr ⟨valuesAt_eq_nil_of_perm perm absent, default⟩

/-- A field with no value for an absent key is present in whatever reads it. -/
theorem Reads.mem_keys {f : Field V α} {es : List (String × V)} {a : α}
    (reads : f.Reads es a) (needed : f.absent = none) : f.name ∈ es.map Prod.fst := by
  rcases reads with ⟨v, once, -⟩ | ⟨-, default⟩
  · have member : v ∈ valuesAt es f.name := by simp [once]
    exact List.mem_map.mpr ⟨_, mem_valuesAt.mp member, rfl⟩
  · rw [needed] at default
    cases default

/-- What is in a field's slot once the entries `es` have been visited. -/
def Slot (f : Field V α) (es : List (String × V)) (slot : Option α) : Prop :=
  (valuesAt es f.name = [] ∧ slot = none) ∨
    ∃ v a, valuesAt es f.name = [v] ∧ f.decode v = .ok a ∧ slot = some a

theorem settle_eq_ok (f : Field V α) {es : List (String × V)} {slot : Option α} {a : α}
    (filled : f.Slot es slot) : f.settle slot = .ok a ↔ f.Reads es a := by
  rcases filled with ⟨absent, rfl⟩ | ⟨v, b, once, decoded, rfl⟩
  · cases default : f.absent <;> simp [settle, Reads, absent, default]
  · simp [settle, Reads, once, decoded]

theorem Slot.unique {f : Field V α} {es : List (String × V)} {slot slot' : Option α}
    (left : f.Slot es slot) (right : f.Slot es slot') : slot = slot' := by
  rcases left with ⟨absent, rfl⟩ | ⟨v, a, once, decoded, rfl⟩ <;>
    rcases right with ⟨absent', rfl⟩ | ⟨w, b, once', decoded', rfl⟩ <;>
    simp_all

/-- The first entry for the key fills the slot. -/
theorem slot_filled {f : Field V α} {es : List (String × V)} {v : V} {a : α}
    (empty : f.Slot es none) (decoded : f.decode v = .ok a) :
    f.Slot (es ++ [(f.name, v)]) (some a) := by
  rcases empty with ⟨absent, -⟩ | ⟨_, _, _, _, full⟩
  · refine .inr ⟨v, a, ?_, decoded, rfl⟩
    rw [valuesAt_append, absent, valuesAt_cons_self]
    rfl
  · cases full

/-- An entry the field cannot read leaves no slot for any document that goes on
from it. -/
theorem not_slot_of_error {f : Field V α} {es more : List (String × V)} {v : V} {e : DecodeError}
    {slot : Option α} (empty : f.Slot es none) (failed : f.decode v = .error e) :
    ¬ f.Slot (es ++ (f.name, v) :: more) slot := by
  rcases empty with ⟨absent, -⟩ | ⟨_, _, _, _, full⟩
  · rintro (⟨absent', -⟩ | ⟨w, b, once, decoded, -⟩)
    · simp at absent'
    · rw [valuesAt_append, absent, valuesAt_cons_self, List.nil_append, List.cons.injEq] at once
      rw [← once.1, failed] at decoded
      cases decoded
  · cases full

/-- Nor does a second entry for the key. -/
theorem not_slot_of_duplicate {f : Field V α} {es more : List (String × V)} {v : V} {a : α}
    {slot : Option α} (full : f.Slot es (some a)) : ¬ f.Slot (es ++ (f.name, v) :: more) slot := by
  rcases full with ⟨-, empty⟩ | ⟨w, b, once, -, -⟩
  · cases empty
  · rintro (⟨absent, -⟩ | ⟨x, c, twice, -, -⟩)
    · simp at absent
    · rw [valuesAt_append, once, valuesAt_cons_self] at twice
      simp at twice

/-- An entry under another key leaves the slot as it was. -/
theorem slot_append_of_ne {f : Field V α} {es : List (String × V)} {k : String} {v : V}
    {slot : Option α} (other : k ≠ f.name) : f.Slot (es ++ [(k, v)]) slot ↔ f.Slot es slot := by
  have untouched : valuesAt (es ++ [(k, v)]) f.name = valuesAt es f.name := by
    rw [valuesAt_append, valuesAt_cons_ne other]
    simp [valuesAt]
  simp only [Slot, untouched]

end Field

/-! ## Tables of fields -/

/-- A struct's fields in declaration order, indexed by the row of their values
and by the visitor's slots. -/
inductive Fields (V : Type) : Type → Type → Type 1 where
  | nil : Fields V Unit Unit
  | cons {α β σ : Type} (field : Field V α) (rest : Fields V β σ) :
      Fields V (α × β) (Option α × σ)

namespace Fields

variable {V : Type}

@[simp] def names {ρ σ : Type} : Fields V ρ σ → List String
  | .nil => []
  | .cons f rest => f.name :: rest.names

/-- The names of the fields that have no value for an absent key. -/
@[simp] def needed {ρ σ : Type} : Fields V ρ σ → List String
  | .nil => []
  | .cons f rest => if f.absent.isNone then f.name :: rest.needed else rest.needed

/-- The entries the derived `Serialize` writes. -/
def entries {ρ σ : Type} : Fields V ρ σ → ρ → List (String × V)
  | .nil, _ => []
  | .cons f rest, (a, row) =>
      match f.encode a with
      | some v => (f.name, v) :: rest.entries row
      | none => rest.entries row

/-- The empty slots `visit_map` starts from. -/
def slots {ρ σ : Type} : Fields V ρ σ → σ
  | .nil => ()
  | .cons _ rest => (none, rest.slots)

/-- One entry: `none` for an unknown key, else the entry's slot filled, or
refused as a duplicate or as undecodable. -/
def visit {ρ σ : Type} : Fields V ρ σ → String → V → σ → Option (Decoded σ)
  | .nil, _, _, _ => none
  | .cons f rest, k, v, (slot, slots) =>
      if k = f.name then
        some (match slot with
          | some _ => .error (.duplicateField f.name)
          | none => (fun a => (some a, slots)) <$> f.decode v)
      else (rest.visit k v slots).map fun visited => (fun slots => (slot, slots)) <$> visited

/-- The loop of `visit_map`; `deny` is `deny_unknown_fields`. -/
def visitEntries {ρ σ : Type} (fs : Fields V ρ σ) (deny : Bool) :
    List (String × V) → σ → Decoded σ
  | [], slots => .ok slots
  | (k, v) :: es, slots =>
      match fs.visit k v slots with
      | none =>
          if deny then .error (.unknownField k fs.names) else fs.visitEntries deny es slots
      | some (.error e) => .error e
      | some (.ok slots) => fs.visitEntries deny es slots

/-- The end of `visit_map`, over all slots. -/
def finish {ρ σ : Type} : Fields V ρ σ → σ → Decoded ρ
  | .nil, _ => .ok ()
  | .cons f rest, (slot, slots) => do
      let a ← f.settle slot
      let row ← rest.finish slots
      return (a, row)

def visitMap {ρ σ : Type} (fs : Fields V ρ σ) (deny : Bool) (es : List (String × V)) :
    Decoded ρ :=
  fs.visitEntries deny es fs.slots >>= fs.finish

/-- `visit_seq`: the row and the elements left over. -/
def visitSeq {ρ σ : Type} : Fields V ρ σ → List V → Decoded (ρ × List V)
  | .nil, vs => .ok ((), vs)
  | .cons f rest, [] =>
      match f.absentSeq with
      | some a => (fun visited => ((a, visited.1), visited.2)) <$> rest.visitSeq []
      | none => .error (.invalidLength (rest.names.length + 1))
  | .cons f rest, v :: vs => do
      let a ← f.decode v
      let visited ← rest.visitSeq vs
      return ((a, visited.1), visited.2)

/-! ### What the loop computes -/

/-- What an entry list must hold for the table to read a row. -/
def Reads {ρ σ : Type} : Fields V ρ σ → List (String × V) → ρ → Prop
  | .nil, _, _ => True
  | .cons f rest, es, (a, row) => f.Reads es a ∧ rest.Reads es row

/-- The slots after the entries `es`. -/
def Filled {ρ σ : Type} : Fields V ρ σ → List (String × V) → σ → Prop
  | .nil, _, _ => True
  | .cons f rest, es, (slot, slots) => f.Slot es slot ∧ rest.Filled es slots

theorem filled_slots {ρ σ : Type} (fs : Fields V ρ σ) : fs.Filled [] fs.slots := by
  induction fs with
  | nil => trivial
  | cons f rest ih => exact ⟨.inl ⟨rfl, rfl⟩, ih⟩

theorem Filled.unique {ρ σ : Type} {fs : Fields V ρ σ} {es : List (String × V)} {s t : σ}
    (left : fs.Filled es s) (right : fs.Filled es t) : s = t := by
  induction fs with
  | nil => rfl
  | cons f rest ih =>
      obtain ⟨slot, slots⟩ := s
      obtain ⟨slot', slots'⟩ := t
      rw [left.1.unique right.1, ih left.2 right.2]

/-- An entry under another key leaves a table's slots as they were. -/
theorem filled_append_of_not_mem {ρ σ : Type} {fs : Fields V ρ σ} {es : List (String × V)}
    {k : String} {v : V} {s : σ} (unknown : k ∉ fs.names) :
    fs.Filled (es ++ [(k, v)]) s ↔ fs.Filled es s := by
  induction fs with
  | nil => rfl
  | cons f rest ih =>
      obtain ⟨slot, slots⟩ := s
      simp only [names, List.mem_cons, not_or] at unknown
      simp only [Filled, Field.slot_append_of_ne unknown.1, ih unknown.2]

/-- **One entry.**  From slots that reflect the entries so far, `visit` finds the
key's slot exactly when the key is a field's name, and then either fills it or
refuses; after a refusal no continuation of the document could be read. -/
theorem visit_spec {ρ σ : Type} (fs : Fields V ρ σ) (distinct : fs.names.Nodup)
    {es : List (String × V)} {k : String} {v : V} {s : σ} (filled : fs.Filled es s) :
    match fs.visit k v s with
    | none => k ∉ fs.names
    | some (.ok t) => k ∈ fs.names ∧ fs.Filled (es ++ [(k, v)]) t
    | some (.error _) => k ∈ fs.names ∧ ∀ more t, ¬ fs.Filled (es ++ (k, v) :: more) t := by
  induction fs with
  | nil => simp [visit, names]
  | cons f rest ih =>
      obtain ⟨slot, slots⟩ := s
      obtain ⟨slotFilled, restFilled⟩ := filled
      simp only [names, List.nodup_cons] at distinct
      by_cases hit : k = f.name
      · subst hit
        simp only [visit, if_true, names, List.mem_cons, true_or, true_and]
        cases slot with
        | some a =>
            rintro more ⟨slot, slots⟩ ⟨again, -⟩
            exact Field.not_slot_of_duplicate slotFilled again
        | none =>
            cases decoded : f.decode v with
            | error e =>
                rintro more ⟨slot, slots⟩ ⟨again, -⟩
                exact Field.not_slot_of_error slotFilled decoded again
            | ok a =>
                refine ⟨Field.slot_filled slotFilled decoded, ?_⟩
                exact (filled_append_of_not_mem distinct.1).mpr restFilled
      · have step := ih distinct.2 restFilled
        simp only [visit, names, List.mem_cons, hit, false_or]
        cases found : rest.visit k v slots with
        | none => simpa [found] using step
        | some visited =>
            cases visited with
            | error e =>
                simp only [found] at step
                refine ⟨step.1, ?_⟩
                rintro more ⟨slot, slots⟩ ⟨-, restFilled⟩
                exact step.2 more slots restFilled
            | ok t =>
                simp only [found] at step
                exact ⟨step.1, (Field.slot_append_of_ne hit).mpr slotFilled, step.2⟩

/-- **The loop.** -/
theorem visitEntries_eq_ok {ρ σ : Type} (fs : Fields V ρ σ) (distinct : fs.names.Nodup)
    (deny : Bool) {es done : List (String × V)} {s t : σ} (filled : fs.Filled done s) :
    fs.visitEntries deny es s = .ok t ↔
      fs.Filled (done ++ es) t ∧ (deny = true → ∀ e ∈ es, e.1 ∈ fs.names) := by
  induction es generalizing done s with
  | nil =>
      simp only [visitEntries, Except.ok.injEq, List.append_nil, List.not_mem_nil, false_implies,
        implies_true, and_true]
      constructor
      · rintro rfl
        exact filled
      · exact filled.unique
  | cons e es ih =>
      obtain ⟨k, v⟩ := e
      have step := fs.visit_spec distinct (k := k) (v := v) filled
      have split : done ++ (k, v) :: es = (done ++ [(k, v)]) ++ es := by simp
      simp only [visitEntries, List.forall_mem_cons]
      cases visited : fs.visit k v s with
      | none =>
          simp only [visited] at step
          cases deny with
          | true => simp [step]
          | false =>
              have kept := (filled_append_of_not_mem (v := v) step).mpr filled
              simp only [Bool.false_eq_true, if_false, ih kept, split, false_implies]
      | some outcome =>
          cases outcome with
          | error e =>
              simp only [visited] at step
              simp [step.2 es t]
          | ok u =>
              simp only [visited] at step
              simp only [ih step.2, split, step.1, true_and]

theorem finish_eq_ok {ρ σ : Type} (fs : Fields V ρ σ) {es : List (String × V)} {s : σ} {row : ρ}
    (filled : fs.Filled es s) : fs.finish s = .ok row ↔ fs.Reads es row := by
  induction fs with
  | nil => simp [finish, Reads]
  | cons f rest ih =>
      obtain ⟨slot, slots⟩ := s
      obtain ⟨a, row⟩ := row
      obtain ⟨slotFilled, restFilled⟩ := filled
      simp only [finish, Reads, bind_eq_ok, pure, Except.pure, Except.ok.injEq, Prod.mk.injEq,
        ih restFilled, ← f.settle_eq_ok slotFilled]
      constructor
      · rintro ⟨_, read, _, rest, rfl, rfl⟩
        exact ⟨read, rest⟩
      · rintro ⟨read, rest⟩
        exact ⟨a, read, row, rest, rfl, rfl⟩

theorem Reads.filled {ρ σ : Type} {fs : Fields V ρ σ} {es : List (String × V)} {row : ρ}
    (reads : fs.Reads es row) : ∃ s, fs.Filled es s := by
  induction fs with
  | nil => exact ⟨(), trivial⟩
  | cons f rest ih =>
      obtain ⟨a, row⟩ := row
      obtain ⟨slots, restFilled⟩ := ih reads.2
      rcases reads.1 with ⟨v, once, decoded⟩ | ⟨absent, -⟩
      · exact ⟨(some a, slots), .inr ⟨v, a, once, decoded, rfl⟩, restFilled⟩
      · exact ⟨(none, slots), .inl ⟨absent, rfl⟩, restFilled⟩

/-- **What `visit_map` accepts, and the row it gives.** -/
theorem visitMap_eq_ok {ρ σ : Type} (fs : Fields V ρ σ) (distinct : fs.names.Nodup)
    (deny : Bool) {es : List (String × V)} {row : ρ} :
    fs.visitMap deny es = .ok row ↔
      fs.Reads es row ∧ (deny = true → ∀ e ∈ es, e.1 ∈ fs.names) := by
  have loop : ∀ t, fs.visitEntries deny es fs.slots = .ok t ↔
      fs.Filled ([] ++ es) t ∧ (deny = true → ∀ e ∈ es, e.1 ∈ fs.names) :=
    fun t => fs.visitEntries_eq_ok distinct deny fs.filled_slots
  simp only [visitMap, bind_eq_ok, loop, List.nil_append]
  constructor
  · rintro ⟨t, ⟨filled, known⟩, finished⟩
    exact ⟨(fs.finish_eq_ok filled).mp finished, known⟩
  · rintro ⟨reads, known⟩
    obtain ⟨t, filled⟩ := reads.filled
    exact ⟨t, ⟨filled, known⟩, (fs.finish_eq_ok filled).mpr reads⟩

theorem Reads.unique {ρ σ : Type} {fs : Fields V ρ σ} {es : List (String × V)} {row row' : ρ}
    (left : fs.Reads es row) (right : fs.Reads es row') : row = row' := by
  induction fs with
  | nil => rfl
  | cons f rest ih =>
      obtain ⟨a, row⟩ := row
      obtain ⟨b, row'⟩ := row'
      rw [left.1.unique right.1, ih left.2 right.2]

theorem Reads.perm {ρ σ : Type} {fs : Fields V ρ σ} {es es' : List (String × V)} {row : ρ}
    (reads : fs.Reads es row) (perm : es.Perm es') : fs.Reads es' row := by
  induction fs with
  | nil => trivial
  | cons f rest ih => exact ⟨reads.1.perm perm, ih reads.2⟩

/-- What is read repeats no field's key. -/
theorem Reads.length_le_one {ρ σ : Type} {fs : Fields V ρ σ} {es : List (String × V)} {row : ρ}
    (reads : fs.Reads es row) {k : String} (member : k ∈ fs.names) :
    (valuesAt es k).length ≤ 1 := by
  induction fs with
  | nil => cases member
  | cons f rest ih =>
      obtain ⟨a, row⟩ := row
      rcases List.mem_cons.mp member with rfl | inRest
      · rcases reads.1 with ⟨v, once, -⟩ | ⟨absent, -⟩
        · simp [once]
        · simp [absent]
      · exact ih reads.2 inRest

theorem Reads.mem_keys {ρ σ : Type} {fs : Fields V ρ σ} {es : List (String × V)} {row : ρ}
    (reads : fs.Reads es row) {k : String} (member : k ∈ fs.needed) :
    k ∈ es.map Prod.fst := by
  induction fs with
  | nil => cases member
  | cons f rest ih =>
      obtain ⟨a, row⟩ := row
      cases default : f.absent with
      | none =>
          simp only [needed, default, Option.isNone_none, if_true, List.mem_cons] at member
          rcases member with rfl | inRest
          · exact reads.1.mem_keys default
          · exact ih reads.2 inRest
      | some b =>
          simp only [needed, default, Option.isNone_some] at member
          exact ih reads.2 member

/-- A document all of whose keys are fields repeats none if it is read. -/
theorem Reads.nodup_keys {ρ σ : Type} {fs : Fields V ρ σ} {es : List (String × V)} {row : ρ}
    (reads : fs.Reads es row) (known : ∀ e ∈ es, e.1 ∈ fs.names) : (es.map Prod.fst).Nodup := by
  rw [nodup_keys_iff]
  intro k
  by_cases field : k ∈ fs.names
  · exact reads.length_le_one field
  · have absent : valuesAt es k = [] := by
      rw [valuesAt_eq_nil]
      rintro member
      obtain ⟨e, inside, rfl⟩ := List.mem_map.mp member
      exact field (known e inside)
    simp [absent]

theorem visitSeq_cons_eq_ok {α β τ : Type} {f : Field V α} {rest : Fields V β τ} {v : V}
    {vs left : List V} {a : α} {row : β} :
    (Fields.cons f rest).visitSeq (v :: vs) = .ok ((a, row), left) ↔
      f.decode v = .ok a ∧ rest.visitSeq vs = .ok (row, left) := by
  simp only [visitSeq, bind_eq_ok, pure, Except.pure, Except.ok.injEq, Prod.mk.injEq]
  constructor
  · rintro ⟨_, decoded, ⟨_, _⟩, visited, ⟨rfl, rfl⟩, rfl⟩
    exact ⟨decoded, visited⟩
  · rintro ⟨decoded, visited⟩
    exact ⟨a, decoded, (row, left), visited, ⟨rfl, rfl⟩, rfl⟩

/-- Past the last element a field takes the value of its attribute. -/
theorem visitSeq_nil_eq_ok {α β τ : Type} {f : Field V α} {rest : Fields V β τ} {left : List V}
    {a : α} {row : β} :
    (Fields.cons f rest).visitSeq [] = .ok ((a, row), left) ↔
      f.absentSeq = some a ∧ rest.visitSeq [] = .ok (row, left) := by
  cases missing : f.absentSeq with
  | none => simp [visitSeq, missing]
  | some default =>
      simp only [visitSeq, missing, map_eq_ok, Prod.mk.injEq, Option.some.injEq]
      constructor
      · rintro ⟨⟨_, _⟩, visited, ⟨rfl, rfl⟩, rfl⟩
        exact ⟨rfl, visited⟩
      · rintro ⟨rfl, visited⟩
        exact ⟨(row, left), visited, ⟨rfl, rfl⟩, rfl⟩

/-- The elements hold the row, one for each field and none left over. -/
def Elements {ρ σ : Type} : Fields V ρ σ → List V → ρ → Prop
  | .nil, vs, _ => vs = []
  | .cons f rest, vs, (a, row) =>
      ∃ v more, vs = v :: more ∧ f.decode v = .ok a ∧ rest.Elements more row

/-- The last field has no value of its attribute. -/
def EndsRequired {ρ σ : Type} : Fields V ρ σ → Prop
  | .nil => True
  | .cons f rest => (rest.names = [] → f.absentSeq = none) ∧ rest.EndsRequired

theorem visitSeq_nil_ne_ok {ρ σ : Type} {fs : Fields V ρ σ} (ends : fs.EndsRequired)
    (nonempty : fs.names ≠ []) (row : ρ) (left : List V) : fs.visitSeq [] ≠ .ok (row, left) := by
  induction fs with
  | nil => exact absurd rfl nonempty
  | cons f rest ih =>
      obtain ⟨a, row⟩ := row
      intro visited
      obtain ⟨default, visited⟩ := visitSeq_nil_eq_ok.mp visited
      by_cases last : rest.names = []
      · rw [ends.1 last] at default
        cases default
      · exact ih ends.2 last row visited

/-- Where the last field has to be there, so have all of them. -/
theorem visitSeq_eq_ok {ρ σ : Type} {fs : Fields V ρ σ} (ends : fs.EndsRequired) {vs : List V}
    {row : ρ} : fs.visitSeq vs = .ok (row, []) ↔ fs.Elements vs row := by
  induction fs generalizing vs with
  | nil => simp [visitSeq, Elements]
  | cons f rest ih =>
      obtain ⟨a, row⟩ := row
      cases vs with
      | nil =>
          refine iff_of_false (visitSeq_nil_ne_ok ends (by simp) _ _) ?_
          rintro ⟨v, more, split, -⟩
          cases split
      | cons v vs =>
          rw [visitSeq_cons_eq_ok, ih ends.2]
          constructor
          · exact fun ⟨decoded, elements⟩ => ⟨v, vs, rfl, decoded, elements⟩
          · rintro ⟨_, _, ⟨⟩, decoded, elements⟩
            exact ⟨decoded, elements⟩

/-! ### Spellings of a struct -/

/-- `parts` spells the row field by field, in declaration order: each field's
key with a spelling of its value, or left out where the value is the one an
absent key stands for. -/
def Spells {ρ σ : Type} : Fields V ρ σ → ρ → List (String × V) → Prop
  | .nil, _, parts => parts = []
  | .cons f rest, (a, row), parts =>
      (∃ v more, parts = (f.name, v) :: more ∧ f.Spells a v ∧ rest.Spells row more) ∨
        (f.absent = some a ∧ rest.Spells row parts)

theorem spells_entries {ρ σ : Type} (fs : Fields V ρ σ) (row : ρ) :
    fs.Spells row (fs.entries row) := by
  induction fs with
  | nil => rfl
  | cons f rest ih =>
      obtain ⟨a, row⟩ := row
      simp only [entries]
      cases written : f.encode a with
      | some v => exact .inl ⟨v, _, rfl, f.spells_encode written, ih row⟩
      | none => exact .inr ⟨f.absent_of_skipped written, ih row⟩

theorem Spells.keys {ρ σ : Type} {fs : Fields V ρ σ} {row : ρ} {parts : List (String × V)}
    (spelled : fs.Spells row parts) : (parts.map Prod.fst).Sublist fs.names := by
  induction fs generalizing parts with
  | nil =>
      cases spelled
      exact .slnil
  | cons f rest ih =>
      obtain ⟨a, row⟩ := row
      rcases spelled with ⟨v, more, rfl, -, spelled⟩ | ⟨-, spelled⟩
      · exact (ih spelled).cons_cons f.name
      · exact (ih spelled).cons f.name

/-- A spelling, with further entries under other keys around it, is read as the
row it spells. -/
theorem Spells.reads {ρ σ : Type} {fs : Fields V ρ σ} (distinct : fs.names.Nodup) {row : ρ}
    {parts others : List (String × V)} (spelled : fs.Spells row parts)
    (foreign : ∀ e ∈ others, e.1 ∉ fs.names) :
    fs.Reads (others ++ parts) row := by
  induction fs generalizing parts others with
  | nil => trivial
  | cons f rest ih =>
      obtain ⟨a, row⟩ := row
      simp only [names, List.nodup_cons] at distinct
      have othersAbsent : valuesAt others f.name = [] := by
        rw [valuesAt_eq_nil]
        rintro member
        obtain ⟨e, inOthers, same⟩ := List.mem_map.mp member
        exact foreign e inOthers (by simp [names, same])
      have restForeign : ∀ e ∈ others, e.1 ∉ rest.names := fun e member known =>
        foreign e member (List.mem_cons_of_mem _ known)
      have absentIn : ∀ {more : List (String × V)}, rest.Spells row more →
          valuesAt more f.name = [] := fun spelled =>
        valuesAt_eq_nil.mpr fun member => distinct.1 (spelled.keys.subset member)
      rcases spelled with ⟨v, more, rfl, fieldSpelled, spelled⟩ | ⟨default, spelled⟩
      · refine ⟨.inl ⟨v, ?_, f.decode_spells fieldSpelled⟩, ?_⟩
        · rw [valuesAt_append, othersAbsent, valuesAt_cons_self, absentIn spelled]
          rfl
        · have around : rest.Reads ((others ++ [(f.name, v)]) ++ more) row := by
            refine ih distinct.2 spelled fun e member => ?_
            rcases List.mem_append.mp member with inOthers | here
            · exact restForeign e inOthers
            · rw [List.mem_singleton.mp here]
              exact distinct.1
          simpa using around
      · refine ⟨.inr ⟨?_, default⟩, ih distinct.2 spelled restForeign⟩
        rw [valuesAt_append, othersAbsent, absentIn spelled]
        rfl

end Fields

/-! ## Structs -/

/-- A struct's table of fields and its correspondence with rows. -/
structure StructTable (V S : Type) where
  {Row : Type}
  {Slots : Type}
  fields : Fields V Row Slots
  toRow : S → Row
  ofRow : Row → S
  ofRow_toRow : ∀ s, ofRow (toRow s) = s
  toRow_ofRow : ∀ row, toRow (ofRow row) = row
  distinct : fields.names.Nodup

namespace StructTable

variable {V S : Type} [Deserializer V] [Serializer V]

/-- `serialize_struct`. -/
def encode (t : StructTable V S) (s : S) : V :=
  serializeMap (t.fields.entries (t.toRow s))

/-- `deserialize_struct` with the generated visitor.  Elements left over after
the last field of a sequence are refused by the format. -/
def decode (t : StructTable V S) (deny : Bool) (v : V) : Decoded S := do
  match ← deserializeStruct v with
  | .entries es => t.ofRow <$> t.fields.visitMap deny es
  | .elements vs =>
      let visited ← t.fields.visitSeq vs
      if visited.2.isEmpty then return t.ofRow visited.1
      else .error (.invalidLength t.fields.names.length)

omit [Serializer V] in
/-- What a derived struct reads from a document of entries. -/
theorem decode_entries_eq_ok (t : StructTable V S) (deny : Bool) {v : V}
    {es : List (String × V)} (shape : deserializeStruct v = .ok (.entries es)) {s : S} :
    t.decode deny v = .ok s ↔
      t.fields.Reads es (t.toRow s) ∧ (deny = true → ∀ e ∈ es, e.1 ∈ t.fields.names) := by
  rw [← t.fields.visitMap_eq_ok t.distinct]
  simp only [decode, shape, bind, Except.bind, map_eq_ok]
  constructor
  · rintro ⟨row, visited, rfl⟩
    rw [t.toRow_ofRow, visited]
  · exact fun visited => ⟨_, visited, t.ofRow_toRow s⟩

omit [Serializer V] in
/-- What a derived struct reads from a document of elements: its fields by
position, with nothing left over. -/
theorem decode_elements_eq_ok (t : StructTable V S) (deny : Bool) {v : V} {vs : List V}
    (shape : deserializeStruct v = .ok (.elements vs)) {s : S} :
    t.decode deny v = .ok s ↔ t.fields.visitSeq vs = .ok (t.toRow s, []) := by
  simp only [decode, shape, bind, Except.bind]
  cases visited : t.fields.visitSeq vs with
  | error e => simp
  | ok outcome =>
      obtain ⟨row, rest⟩ := outcome
      cases rest with
      | cons v rest => simp
      | nil =>
          simp only [List.isEmpty_nil, if_true, pure, Except.pure, Except.ok.injEq,
            Prod.mk.injEq, and_true]
          constructor
          · rintro rfl
            exact (t.toRow_ofRow row).symm
          · rintro rfl
            exact t.ofRow_toRow s

variable [LawfulFormat V]

/-- What one struct writes never decodes as another that needs a key the first
does not have. -/
theorem decode_encode_ne {S' : Type} (t : StructTable V S) (u : StructTable V S') (deny : Bool)
    {k : String} (needed : k ∈ u.fields.needed) (foreign : k ∉ t.fields.names) (s : S)
    (s' : S') : u.decode deny (t.encode s) ≠ .ok s' := by
  intro decoded
  have reads := ((u.decode_entries_eq_ok deny (LawfulFormat.map _)).mp decoded).1
  exact foreign ((t.fields.spells_entries _).keys.subset (reads.mem_keys needed))

/-- Entries under other keys, around a spelling, are ignored. -/
theorem decode_spells_around (t : StructTable V S) {s : S}
    {es parts others : List (String × V)} (perm : es.Perm (others ++ parts))
    (spelled : t.fields.Spells (t.toRow s) parts)
    (foreign : ∀ e ∈ others, e.1 ∉ t.fields.names) :
    t.decode false (serializeMap es) = .ok s := by
  rw [t.decode_entries_eq_ok false (LawfulFormat.map es)]
  exact ⟨(spelled.reads t.distinct foreign).perm perm.symm, by simp⟩

/-- The codec of the struct; `deny` is `deny_unknown_fields`. -/
def codec (t : StructTable V S) (deny : Bool) : Codec V S where
  encode := t.encode
  decode := t.decode deny
  Spells s v := ∃ es parts, v = serializeMap es ∧ es.Perm parts ∧
    t.fields.Spells (t.toRow s) parts
  spells_encode s := ⟨_, _, rfl, .refl _, t.fields.spells_entries _⟩
  decode_spells := by
    rintro s v ⟨es, parts, rfl, perm, spelled⟩
    refine (t.decode_entries_eq_ok deny (LawfulFormat.map es)).mpr ⟨?_, fun _ e member => ?_⟩
    · have reads : t.fields.Reads ([] ++ parts) (t.toRow s) := spelled.reads t.distinct (by simp)
      exact reads.perm perm.symm
    · exact spelled.keys.subset ((perm.map Prod.fst).subset (List.mem_map_of_mem member))

/-- Each needs a key the other does not have. -/
theorem codec_apart {S' : Type} (t : StructTable V S) (u : StructTable V S') (deny deny' : Bool)
    {k k' : String} (needed : k ∈ u.fields.needed) (foreign : k ∉ t.fields.names)
    (needed' : k' ∈ t.fields.needed) (foreign' : k' ∉ u.fields.names) :
    (t.codec deny).Apart (u.codec deny') :=
  ⟨t.decode_encode_ne u deny' needed foreign, u.decode_encode_ne t deny needed' foreign'⟩

end StructTable

/-! ## Tables that read alike

What a struct is read as depends on the names, decoders and defaults of its fields,
not on which documents are said to spell its values. -/

/-- The fields differ in what they write and in their spellings at most. -/
structure Field.ReadsAlike {V α : Type} (f g : Field V α) : Prop where
  name : f.name = g.name
  decode : f.decode = g.decode
  absent : f.absent = g.absent
  absentSeq : f.absentSeq = g.absentSeq

inductive Fields.ReadAlike {V : Type} : {ρ σ : Type} → Fields V ρ σ → Fields V ρ σ → Prop where
  | nil : ReadAlike .nil .nil
  | cons {α β σ : Type} {f g : Field V α} {rest rest' : Fields V β σ} :
      f.ReadsAlike g → ReadAlike rest rest' → ReadAlike (.cons f rest) (.cons g rest')

section ReadAlike

variable {V ρ σ : Type} {fs gs : Fields V ρ σ}

theorem Field.ReadsAlike.refl {α : Type} (f : Field V α) : f.ReadsAlike f :=
  ⟨rfl, rfl, rfl, rfl⟩

namespace Fields.ReadAlike

theorem names (alike : fs.ReadAlike gs) : fs.names = gs.names := by
  induction alike with
  | nil => rfl
  | cons same _ ih => rw [Fields.names, Fields.names, same.name, ih]

theorem slots (alike : fs.ReadAlike gs) : fs.slots = gs.slots := by
  induction alike with
  | nil => rfl
  | cons _ _ ih => rw [Fields.slots, Fields.slots, ih]

theorem visit (alike : fs.ReadAlike gs) (k : String) (v : V) (slots : σ) :
    fs.visit k v slots = gs.visit k v slots := by
  induction alike with
  | nil => rfl
  | cons same _ ih => simp only [Fields.visit, same.name, same.decode, ih]

theorem visitEntries (alike : fs.ReadAlike gs) (deny : Bool) (es : List (String × V))
    (slots : σ) : fs.visitEntries deny es slots = gs.visitEntries deny es slots := by
  induction es generalizing slots with
  | nil => rfl
  | cons e es ih => simp only [Fields.visitEntries, alike.visit, alike.names, ih]

theorem finish (alike : fs.ReadAlike gs) (slots : σ) : fs.finish slots = gs.finish slots := by
  induction alike with
  | nil => rfl
  | cons same _ ih => simp only [Fields.finish, Field.settle, same.name, same.absent, ih]

theorem visitSeq (alike : fs.ReadAlike gs) (vs : List V) : fs.visitSeq vs = gs.visitSeq vs := by
  induction alike generalizing vs with
  | nil => rfl
  | cons same others ih =>
      cases vs with
      | nil => simp only [Fields.visitSeq, same.absentSeq, others.names, ih]
      | cons v vs => simp only [Fields.visitSeq, same.decode, ih]

/-- Two tables of one struct that read alike decode alike. -/
theorem decode {S : Type} [Deserializer V] {toRow : S → ρ} {ofRow : ρ → S}
    {back : ∀ s, ofRow (toRow s) = s} {forth : ∀ row, toRow (ofRow row) = row}
    {distinct : fs.names.Nodup} {distinct' : gs.names.Nodup} (alike : fs.ReadAlike gs)
    (deny : Bool) (v : V) :
    StructTable.decode ⟨fs, toRow, ofRow, back, forth, distinct⟩ deny v =
      StructTable.decode ⟨gs, toRow, ofRow, back, forth, distinct'⟩ deny v := by
  have entries : ∀ es, fs.visitMap deny es = gs.visitMap deny es := by
    intro es
    rw [Fields.visitMap, Fields.visitMap, alike.slots, alike.visitEntries]
    congr 1
    funext slots
    exact alike.finish slots
  simp only [StructTable.decode, entries, alike.visitSeq, alike.names]

end Fields.ReadAlike

end ReadAlike

end CrewList.Theory.Serde
