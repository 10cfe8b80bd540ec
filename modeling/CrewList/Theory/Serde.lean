/-
# CrewList.Theory.Serde -- formats, codecs and what a value may be spelled as

Serde splits a wire format in two.  A *format* (`Deserializer`, `Serializer`)
knows how the primitive kinds of value look in its documents; a *codec* is what
`#[derive(Serialize, Deserialize)]` generates for one type, written once against
any format.  This module is that split: the two classes, the laws a format that
reads back what it writes satisfies (`LawfulFormat`), and the codecs of the
types the derive bottoms out in.

A codec carries a third component besides its two functions.  `Spells a v` says
that the document `v` is a spelling of `a`: the encoding, or a variant of it
that means the same (another key order, a defaulted key left out).  Two fields
tie the three together:

* `spells_encode`: the encoding is one of the spellings;
* `decode_spells`: every spelling decodes, and to the value it spells.

`decode_encode` is the round trip.
-/
import Mathlib

namespace CrewList.Theory.Serde

set_option autoImplicit false

/-! ## Errors -/

/-- Why a document was refused, as the constructors of `serde::de::Error`. -/
inductive DecodeError where
  | invalidType (expected : String)
  | invalidValue (expected : String)
  | invalidLength (expected : Nat)
  | unknownVariant (variant : String) (expected : List String)
  | unknownField (field : String) (expected : List String)
  | missingField (field : String)
  | duplicateField (field : String)
  | custom (message : String)
  deriving DecidableEq, Repr

abbrev Decoded (α : Type) := Except DecodeError α

theorem bind_eq_ok {α β : Type} {x : Decoded α} {f : α → Decoded β} {b : β} :
    (x >>= f) = .ok b ↔ ∃ a, x = .ok a ∧ f a = .ok b := by
  cases x <;> simp [bind, Except.bind]

theorem map_eq_ok {α β : Type} {f : α → β} {x : Decoded α} {b : β} :
    f <$> x = .ok b ↔ ∃ a, x = .ok a ∧ f a = b := by
  cases x <;> simp [Functor.map, Except.map]

theorem mapM_eq_ok {α β : Type} {f : α → Decoded β} {as : List α} {bs : List β} :
    as.mapM f = .ok bs ↔ List.Forall₂ (fun a b => f a = .ok b) as bs := by
  induction as generalizing bs with
  | nil => cases bs <;> simp [pure, Except.pure]
  | cons a as ih =>
      simp only [List.mapM_cons, bind_eq_ok, pure, Except.pure, Except.ok.injEq]
      constructor
      · rintro ⟨b, head, rest, tail, rfl⟩
        exact .cons head (ih.mp tail)
      · rintro (_ | ⟨head, tail⟩)
        exact ⟨_, head, _, ih.mpr tail, rfl⟩

/-! ## Formats -/

/-- What a format hands to the visitor of a derived struct. -/
inductive StructAccess (V : Type) where
  | entries (entries : List (String × V))
  | elements (elements : List V)

/-- The reading half of a format.  `deserializeInt` is the integer the format
presents before the visitor checks its width; `deserializeOption` is `none` for
the format's null. -/
class Deserializer (V : Type) where
  deserializeBool : V → Decoded Bool
  deserializeInt : V → Decoded Int
  deserializeStr : V → Decoded String
  deserializeOption : V → Option V
  deserializeSeq : V → Decoded (List V)
  deserializeStruct : V → Decoded (StructAccess V)

/-- The part of a format that presents a unit variant by name. -/
class EnumAccess (V : Type) where
  deserializeVariant : V → Decoded String

/-- The writing half of a format. -/
class Serializer (V : Type) where
  serializeBool : Bool → V
  serializeI32 : Int32 → V
  serializeI64 : Int64 → V
  serializeStr : String → V
  serializeNone : V
  serializeSeq : List V → V
  serializeMap : List (String × V) → V

export Deserializer (deserializeBool deserializeInt deserializeStr deserializeOption
  deserializeSeq deserializeStruct)
export EnumAccess (deserializeVariant)
export Serializer (serializeBool serializeI32 serializeI64 serializeStr serializeNone
  serializeSeq serializeMap)

/-- A format that reads back what it writes, and writes its null for nothing
else. -/
class LawfulFormat (V : Type) [Deserializer V] [Serializer V] : Prop where
  bool (b : Bool) : deserializeBool (serializeBool b : V) = .ok b
  i32 (n : Int32) : deserializeInt (serializeI32 n : V) = .ok n.toInt
  i64 (n : Int64) : deserializeInt (serializeI64 n : V) = .ok n.toInt
  str (s : String) : deserializeStr (serializeStr s : V) = .ok s
  seq (vs : List V) : deserializeSeq (serializeSeq vs) = .ok vs
  map (es : List (String × V)) : deserializeStruct (serializeMap es) = .ok (.entries es)
  none : deserializeOption (serializeNone : V) = Option.none
  some_i64 (n : Int64) : deserializeOption (serializeI64 n : V) = some (serializeI64 n)
  some_str (s : String) : deserializeOption (serializeStr s : V) = some (serializeStr s)

/-- A format that names a unit variant by the bare string it wrote for it. -/
class LawfulEnum (V : Type) [EnumAccess V] [Serializer V] : Prop where
  variant (s : String) : deserializeVariant (serializeStr s : V) = .ok s

attribute [simp] LawfulFormat.bool LawfulFormat.i32 LawfulFormat.i64 LawfulFormat.str
  LawfulFormat.seq LawfulFormat.map LawfulFormat.none LawfulFormat.some_i64
  LawfulFormat.some_str LawfulEnum.variant

/-! ## Codecs -/

/-- What the derives generate for the type `α`, with the documents that spell
each of its values: the encoding is a spelling, and every spelling decodes to
the value it spells. -/
structure Codec (V α : Type) where
  encode : α → V
  decode : V → Decoded α
  Spells : α → V → Prop
  spells_encode : ∀ a, Spells a (encode a)
  decode_spells : ∀ {a v}, Spells a v → decode v = .ok a

/-- A type with a textual form that reads back unchanged. -/
structure TextForm (T : Type) where
  write : T → String
  read : String → Option T
  read_write : ∀ t, read (write t) = some t

/-- A text as its own form. -/
def TextForm.verbatim : TextForm String where
  write := id
  read := some
  read_write _ := rfl

namespace Codec

variable {V α β : Type}

/-- The round trip. -/
theorem decode_encode (c : Codec V α) (a : α) : c.decode (c.encode a) = .ok a :=
  c.decode_spells (c.spells_encode a)

/-- The document decodes. -/
def CanRead (c : Codec V α) (v : V) : Prop := ∃ a, c.decode v = .ok a

/-- What the one writes never decodes as the other. -/
def Apart (c : Codec V α) (d : Codec V β) : Prop :=
  (∀ a b, d.decode (c.encode a) ≠ .ok b) ∧ ∀ b a, c.decode (d.encode b) ≠ .ok a

/-- No spelling of any value is the format's null, so `Option` can use null for
`None`. -/
def NonNull [Deserializer V] (c : Codec V α) : Prop :=
  ∀ a v, c.Spells a v → deserializeOption v = some v

/-- The codec that spells every value in exactly one way. -/
def canonical (encode : α → V) (decode : V → Decoded α)
    (back : ∀ a, decode (encode a) = .ok a) : Codec V α where
  encode := encode
  decode := decode
  Spells a v := v = encode a
  spells_encode _ := rfl
  decode_spells spelled := by
    cases spelled
    exact back _

/-! ### Scalars -/

section Scalars

/-- `i64`'s visitor: any integer the format presents, if it fits. -/
def narrowI64 (n : Int) : Decoded Int64 :=
  if -2 ^ 63 ≤ n ∧ n < 2 ^ 63 then .ok (Int64.ofInt n) else .error (.invalidValue "i64")

/-- `i32`'s visitor. -/
def narrowI32 (n : Int) : Decoded Int32 :=
  if -2 ^ 31 ≤ n ∧ n < 2 ^ 31 then .ok (Int32.ofInt n) else .error (.invalidValue "i32")

theorem narrowI64_toInt (n : Int64) : narrowI64 n.toInt = .ok n := by
  unfold narrowI64
  rw [if_pos ⟨n.le_toInt, n.toInt_lt⟩, Int64.ofInt_toInt]

theorem narrowI32_toInt (n : Int32) : narrowI32 n.toInt = .ok n := by
  unfold narrowI32
  rw [if_pos ⟨n.le_toInt, n.toInt_lt⟩, Int32.ofInt_toInt]

theorem narrowI64_eq_ok {n : Int} {i : Int64} (narrowed : narrowI64 n = .ok i) :
    n = i.toInt := by
  unfold narrowI64 at narrowed
  split at narrowed
  · rename_i fits
    cases narrowed
    rw [Int64.toInt_ofInt_of_le fits.1 fits.2]
  · cases narrowed

variable (V) [Deserializer V] [Serializer V] [LawfulFormat V]

def bool : Codec V Bool := canonical serializeBool deserializeBool LawfulFormat.bool

def str : Codec V String := canonical serializeStr deserializeStr LawfulFormat.str

def i64 : Codec V Int64 :=
  canonical serializeI64 (fun v => deserializeInt v >>= narrowI64) fun n => by
    rw [LawfulFormat.i64]
    exact narrowI64_toInt n

def i32 : Codec V Int32 :=
  canonical serializeI32 (fun v => deserializeInt v >>= narrowI32) fun n => by
    rw [LawfulFormat.i32]
    exact narrowI32_toInt n

theorem str_nonNull : (str V).NonNull := by
  rintro s _ rfl
  exact LawfulFormat.some_str s

theorem i64_nonNull : (i64 V).NonNull := by
  rintro n _ rfl
  exact LawfulFormat.some_i64 n

end Scalars

/-! ### Text forms -/

section Text

variable {T : Type} (V : Type) [Deserializer V] [Serializer V] [LawfulFormat V]

/-- The textual form as a string of the format. -/
def text (form : TextForm T) : Codec V T :=
  canonical (fun t => serializeStr (form.write t))
    (fun v => deserializeStr v >>= fun s =>
      match form.read s with
      | some t => .ok t
      | none => .error (.custom "malformed text")) fun t => by
      simp only [LawfulFormat.str, bind, Except.bind, form.read_write]

theorem text_nonNull (form : TextForm T) : (text V form).NonNull := by
  rintro t _ rfl
  exact LawfulFormat.some_str _

end Text

/-! ### Unit enums -/

/-- Distinct names find their variant again. -/
theorem find?_names {names : α → String} {variants : List α}
    (injective : Function.Injective names) {a : α} (listed : a ∈ variants) :
    variants.find? (fun b => names b = names a) = some a := by
  induction variants with
  | nil => cases listed
  | cons b rest ih =>
      by_cases same : names b = names a
      · have : b = a := injective same
        subst this
        simp
      · have : a ∈ rest := by
          rcases List.mem_cons.mp listed with rfl | inRest
          · exact absurd rfl same
          · exact inRest
        simp [same, ih this]

/-- The visitor of a unit enum: the variant of that name. -/
def variantNamed (names : α → String) (variants : List α) (name : String) : Decoded α :=
  match variants.find? fun a => names a = name with
  | some a => .ok a
  | none => .error (.unknownVariant name (variants.map names))

theorem variantNamed_eq_ok {names : α → String} {variants : List α} {name : String} {a : α}
    (found : variantNamed names variants name = .ok a) : names a = name := by
  unfold variantNamed at found
  split at found
  · rename_i b listed
    cases found
    have named := List.find?_some listed
    exact of_decide_eq_true named
  · cases found

/-- A `#[serde(rename_all = ...)]` enum of unit variants: `names` gives each
variant's wire name, `variants` the declaration order. -/
def unitEnum (V : Type) [EnumAccess V] [Serializer V] [LawfulEnum V] (names : α → String)
    (variants : List α) (injective : Function.Injective names) (complete : ∀ a, a ∈ variants) :
    Codec V α :=
  canonical (fun a => serializeStr (names a))
    (fun v => deserializeVariant v >>= variantNamed names variants) fun a => by
      simp only [LawfulEnum.variant, bind, Except.bind, variantNamed,
        find?_names injective (complete a)]

/-! ### Options and vectors -/

section Containers

variable [Deserializer V] [Serializer V] [LawfulFormat V]

/-- `Option<T>`: the format's null or a spelling of the content. -/
def option (c : Codec V α) (nonNull : c.NonNull) : Codec V (Option α) where
  encode
    | none => serializeNone
    | some a => c.encode a
  decode v :=
    match deserializeOption v with
    | none => .ok none
    | some w => some <$> c.decode w
  Spells
    | none, v => v = serializeNone
    | some a, v => c.Spells a v
  spells_encode
    | none => rfl
    | some a => c.spells_encode a
  decode_spells {a v} spelled := by
    cases a with
    | none =>
        cases spelled
        simp
    | some a =>
        simp only [nonNull a v spelled, c.decode_spells spelled]
        rfl

/-- `Vec<T>`. -/
def list (c : Codec V α) : Codec V (List α) where
  encode as := serializeSeq (as.map c.encode)
  decode v := deserializeSeq v >>= List.mapM c.decode
  Spells as v := ∃ vs, v = serializeSeq vs ∧ List.Forall₂ c.Spells as vs
  spells_encode as :=
    ⟨as.map c.encode, rfl, by
      induction as with
      | nil => exact .nil
      | cons a as ih => exact .cons (c.spells_encode a) ih⟩
  decode_spells := by
    rintro as v ⟨vs, rfl, spelled⟩
    simp only [LawfulFormat.seq]
    exact mapM_eq_ok.mpr (spelled.flip.imp fun _ _ => c.decode_spells)

end Containers

end Codec

end CrewList.Theory.Serde
