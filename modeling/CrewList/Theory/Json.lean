/-
# CrewList.Theory.Json -- JSON as a serde format

A JSON document is the tree `serde_json` parses a text into.  Members keep their
order and their repetitions, since the derived visitors see both.  An integer
literal is `int`; a literal `serde_json` can only hold as a float is `real`, kept
as text.

`decode_str_eq_ok` and its neighbours say which documents a decoder reads as a given
value, so that a decoder that succeeds has read that and nothing else.
-/
import CrewList.Theory.Derive

namespace CrewList.Theory.Serde

set_option autoImplicit false

inductive Json where
  | null
  | bool (b : Bool)
  | int (n : Int)
  | real (literal : String)
  | str (s : String)
  | arr (elements : List Json)
  | obj (members : List (String × Json))

namespace Json

instance : Deserializer Json where
  deserializeBool
    | .bool b => .ok b
    | _ => .error (.invalidType "a boolean")
  deserializeInt
    | .int n => .ok n
    | _ => .error (.invalidType "an integer")
  deserializeStr
    | .str s => .ok s
    | _ => .error (.invalidType "a string")
  deserializeOption
    | .null => none
    | v => some v
  deserializeSeq
    | .arr vs => .ok vs
    | _ => .error (.invalidType "a sequence")
  deserializeStruct
    | .obj es => .ok (.entries es)
    | .arr vs => .ok (.elements vs)
    | _ => .error (.invalidType "a struct")

/-- A unit variant is its name, or the one-member object `{"name": null}`: the
externally tagged form, with `()` for content. -/
instance : EnumAccess Json where
  deserializeVariant
    | .str s => .ok s
    | .obj [(name, .null)] => .ok name
    | _ => .error (.invalidType "a variant")

instance : Serializer Json where
  serializeBool := .bool
  serializeI32 n := .int n.toInt
  serializeI64 n := .int n.toInt
  serializeStr := .str
  serializeNone := .null
  serializeSeq := .arr
  serializeMap := .obj

instance : LawfulFormat Json where
  bool _ := rfl
  i32 _ := rfl
  i64 _ := rfl
  str _ := rfl
  seq _ := rfl
  map _ := rfl
  none := rfl
  some_i64 _ := rfl
  some_str _ := rfl

instance : LawfulEnum Json where
  variant _ := rfl

/-! ## What a document must be to decode -/

theorem decode_str_eq_ok {v : Json} {s : String} :
    (Codec.str Json).decode v = .ok s ↔ v = .str s := by
  constructor
  · intro decoded
    cases v <;> cases decoded
    rfl
  · rintro rfl
    rfl

theorem decode_bool_eq_ok {v : Json} {b : Bool} :
    (Codec.bool Json).decode v = .ok b ↔ v = .bool b := by
  constructor
  · intro decoded
    cases v <;> cases decoded
    rfl
  · rintro rfl
    rfl

theorem decode_i64_eq_ok {v : Json} {n : Int64} :
    (Codec.i64 Json).decode v = .ok n ↔ v = .int n.toInt := by
  constructor
  · intro decoded
    cases v with
    | int m =>
        have narrowed : Codec.narrowI64 m = .ok n := decoded
        rw [Codec.narrowI64_eq_ok narrowed]
    | _ => cases decoded
  · rintro rfl
    exact (Codec.i64 Json).decode_encode n

/-- `Option` reads null as `None`, and any other document as its content. -/
theorem decode_option_eq_ok {α : Type} {c : Codec Json α} {nonNull : c.NonNull} {v : Json}
    {a : Option α} :
    (c.option nonNull).decode v = .ok a ↔
      (v = .null ∧ a = none) ∨ (v ≠ .null ∧ ∃ b, a = some b ∧ c.decode v = .ok b) := by
  by_cases isNull : v = .null
  · subst isNull
    have null : (c.option nonNull).decode .null = .ok none := rfl
    simp [null, eq_comm]
  · have content : deserializeOption v = some v := by
      cases v with
      | null => exact absurd rfl isNull
      | _ => rfl
    simp only [Codec.option, content, map_eq_ok, isNull, false_and, false_or, ne_eq,
      not_false_eq_true, true_and]
    constructor
    · rintro ⟨b, decoded, rfl⟩
      exact ⟨b, rfl, decoded⟩
    · rintro ⟨b, rfl, decoded⟩
      exact ⟨b, decoded, rfl⟩

theorem decode_list_eq_ok {α : Type} {c : Codec Json α} {v : Json} {as : List α} :
    (Codec.list c).decode v = .ok as ↔
      ∃ vs, v = .arr vs ∧ List.Forall₂ (fun v a => c.decode v = .ok a) vs as := by
  simp only [Codec.list, bind_eq_ok, mapM_eq_ok]
  constructor
  · rintro ⟨vs, shape, decoded⟩
    cases v <;> cases shape
    exact ⟨vs, rfl, decoded⟩
  · rintro ⟨vs, rfl, decoded⟩
    exact ⟨vs, rfl, decoded⟩

theorem deserializeVariant_eq_ok {v : Json} {name : String} :
    deserializeVariant v = .ok name ↔ v = .str name ∨ v = .obj [(name, .null)] := by
  constructor
  · intro presented
    cases v with
    | str s =>
        cases presented
        exact .inl rfl
    | obj members =>
        match members, presented with
        | [(_, .null)], rfl => exact .inr rfl
    | _ => cases presented
  · rintro (rfl | rfl) <;> rfl

theorem decode_unitEnum_eq_ok {α : Type} {names : α → String} {variants : List α}
    {injective : Function.Injective names} {complete : ∀ a, a ∈ variants} {v : Json} {a : α} :
    (Codec.unitEnum Json names variants injective complete).decode v = .ok a ↔
      v = .str (names a) ∨ v = .obj [(names a, .null)] := by
  rw [← deserializeVariant_eq_ok]
  have found : Codec.variantNamed names variants (names a) = .ok a := by
    rw [Codec.variantNamed, Codec.find?_names injective (complete a)]
  simp only [Codec.unitEnum, Codec.canonical, bind_eq_ok]
  constructor
  · rintro ⟨name, presented, named⟩
    rwa [Codec.variantNamed_eq_ok named]
  · exact fun presented => ⟨_, presented, found⟩

end Json

end CrewList.Theory.Serde
