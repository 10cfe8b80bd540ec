/-
# CrewList.Theory.QueryString -- query strings as a serde format

`serde_urlencoded` presents a decoded query as a struct whose every value is a
string (`part`), and lets the target type say how the string is read: a boolean
is `true` or `false`, an integer what `FromStr` parses, a unit variant its name.
An `Option` field is `Some` whenever its key is there, so an empty value is not
an absent one.  On writing, a `None` leaves its pair out.
-/
import CrewList.Theory.Derive

namespace CrewList.Theory.Serde

set_option autoImplicit false

/-! ## Integers as text -/

/-- At least one ASCII digit, and nothing else. -/
def parseDigits (digits : List Char) : Option Nat :=
  if digits ≠ [] ∧ digits.all Char.isDigit then
    some (digits.foldl (fun n c => 10 * n + (c.toNat - '0'.toNat)) 0)
  else none

/-- The decimal integers `FromStr` parses, before the check of the width: an
optional sign and digits. -/
def parseInt (s : String) : Option Int :=
  match s.toList with
  | '+' :: digits => (parseDigits digits).map fun n => (n : Int)
  | '-' :: digits => (parseDigits digits).map fun n => -(n : Int)
  | digits => (parseDigits digits).map fun n => (n : Int)

/-- `i64::from_str`. -/
def parseI64 (s : String) : Option Int64 :=
  match parseInt s with
  | some n => (Codec.narrowI64 n).toOption
  | none => none

theorem parseDigits_toDigits (n : Nat) : parseDigits (Nat.toDigits 10 n) = some n := by
  have digits : (Nat.toDigits 10 n).all Char.isDigit = true := List.all_eq_true.mpr
    fun c member => Nat.isDigit_of_mem_toDigits (by decide) (by decide) member
  rw [parseDigits, if_pos ⟨Nat.toDigits_ne_nil, digits⟩]
  exact congrArg some Nat.ofDigitChars_ten_toDigits

theorem toString_ofNat (n : Nat) : (toString (Int.ofNat n)).toList = Nat.toDigits 10 n := by
  show (toString n).toList = _
  simp

theorem toString_negSucc (n : Nat) :
    (toString (Int.negSucc n)).toList = '-' :: Nat.toDigits 10 (n + 1) := by
  show ("-" ++ toString (n + 1)).toList = _
  simp

/-- The text of an integer is a sign, maybe, and digits. -/
theorem toString_chars (i : Int) : ∀ c ∈ (toString i).toList, c = '-' ∨ c.isDigit = true := by
  intro c member
  cases i with
  | ofNat n =>
      rw [toString_ofNat] at member
      exact .inr (Nat.isDigit_of_mem_toDigits (by decide) (by decide) member)
  | negSucc n =>
      rw [toString_negSucc] at member
      rcases List.mem_cons.mp member with rfl | digit
      · exact .inl rfl
      · exact .inr (Nat.isDigit_of_mem_toDigits (by decide) (by decide) digit)

theorem parseInt_toString (i : Int) : parseInt (toString i) = some i := by
  cases i with
  | negSucc n =>
      rw [parseInt, toString_negSucc]
      simp only [parseDigits_toDigits]
      rfl
  | ofNat n =>
      have digit : ∀ c ∈ Nat.toDigits 10 n, c ≠ '+' ∧ c ≠ '-' := by
        intro c member
        have isDigit := Nat.isDigit_of_mem_toDigits (by decide) (by decide) member
        refine ⟨?_, ?_⟩ <;> rintro rfl <;> exact absurd isDigit (by decide)
      rw [parseInt, toString_ofNat]
      split
      · rename_i rest same
        exact absurd rfl (digit '+' (same ▸ .head _)).1
      · rename_i rest same
        exact absurd rfl (digit '-' (same ▸ .head _)).2
      · rw [parseDigits_toDigits]
        rfl

/-- **An `i64` is read back as it is written.** -/
theorem parseI64_toString (n : Int64) : parseI64 (toString n) = some n := by
  have written : parseInt (toString n) = some n.toInt := parseInt_toString n.toInt
  rw [parseI64, written]
  simp only [Codec.narrowI64_toInt]
  rfl

/-! ## The format -/

inductive Query where
  | part (text : String)
  | pairs (pairs : List (String × String))

namespace Query

instance : Deserializer Query where
  deserializeBool
    | .part "true" => .ok true
    | .part "false" => .ok false
    | _ => .error (.custom "expected true or false")
  deserializeInt
    | .part s =>
        match parseInt s with
        | some n => .ok n
        | none => .error (.custom "expected an integer")
    | .pairs _ => .error (.invalidType "an integer")
  deserializeStr
    | .part s => .ok s
    | .pairs _ => .error (.invalidType "a string")
  deserializeOption := some
  deserializeSeq _ := .error (.invalidType "a sequence")
  deserializeStruct
    | .pairs ps => .ok (.entries (ps.map fun p => (p.1, .part p.2)))
    | .part _ => .error (.invalidType "a struct")

instance : EnumAccess Query where
  deserializeVariant
    | .part s => .ok s
    | .pairs _ => .error (.invalidType "a variant")

def bool : Codec Query Bool :=
  .canonical (fun b => .part (if b then "true" else "false")) deserializeBool fun b => by
    cases b <;> rfl

def unitEnum {α : Type} (names : α → String) (variants : List α)
    (injective : Function.Injective names) (complete : ∀ a, a ∈ variants) : Codec Query α :=
  .canonical (fun a => .part (names a))
    (fun v => deserializeVariant v >>= Codec.variantNamed names variants) fun a => by
      simp only [deserializeVariant, bind, Except.bind, Codec.variantNamed,
        Codec.find?_names injective (complete a)]

/-- A defaulted `Option` field: `Some` of the value under its key. -/
def optional {α : Type} (name : String) (c : Codec Query α) : Field Query (Option α) where
  name := name
  encode a := a.map c.encode
  decode v := some <$> c.decode v
  Spells a v := ∃ b, a = some b ∧ c.Spells b v
  absent := some none
  absentSeq := some none
  spells_encode {a v} encoded := by
    obtain ⟨b, rfl, rfl⟩ := Option.map_eq_some_iff.mp encoded
    exact ⟨b, rfl, c.spells_encode b⟩
  absent_of_skipped {a} skipped := by
    rw [Option.map_eq_none_iff.mp skipped]
  decode_spells := by
    rintro a v ⟨b, rfl, spelled⟩
    rw [c.decode_spells spelled]
    rfl

@[simp] theorem optional_name {α : Type} (name : String) (c : Codec Query α) :
    (optional name c).name = name := rfl

/-! ## What a part reads as -/

theorem decode_bool_eq_ok {s : String} {b : Bool} :
    bool.decode (.part s) = .ok b ↔ s = if b then "true" else "false" := by
  constructor
  · intro decoded
    simp only [bool, Codec.canonical, deserializeBool] at decoded
    split at decoded <;> cases decoded <;> simp_all
  · rintro rfl
    cases b <;> rfl

theorem decode_unitEnum_eq_ok {α : Type} {names : α → String} {variants : List α}
    {injective : Function.Injective names} {complete : ∀ a, a ∈ variants} {s : String} {a : α} :
    (unitEnum names variants injective complete).decode (.part s) = .ok a ↔ s = names a := by
  constructor
  · intro decoded
    exact (Codec.variantNamed_eq_ok decoded).symm
  · rintro rfl
    exact (unitEnum names variants injective complete).decode_encode a

/-! ## What a strict struct reads -/

/-- What the pairs give a field: every value under its key reads as `a`, and without
one `a` is the value of an absent key. -/
def Given {α : Type} (f : Field Query α) (ps : List (String × String)) (a : α) : Prop :=
  (∀ v, (f.name, v) ∈ ps → f.decode (.part v) = .ok a) ∧
    (f.name ∉ ps.map Prod.fst → f.absent = some a)

/-- The same for every field of a table. -/
def AllGiven {ρ σ : Type} : Fields Query ρ σ → List (String × String) → ρ → Prop
  | .nil, _, _ => True
  | .cons f rest, ps, (a, row) => Given f ps a ∧ AllGiven rest ps row

/-- The entries a query presents. -/
def parts (ps : List (String × String)) : List (String × Query) := ps.map fun p => (p.1, .part p.2)

@[simp] theorem parts_keys (ps : List (String × String)) :
    (parts ps).map Prod.fst = ps.map Prod.fst := by
  simp [parts, Function.comp_def]

theorem reads_parts {ρ σ : Type} {fs : Fields Query ρ σ} {ps : List (String × String)} {row : ρ}
    (distinct : (ps.map Prod.fst).Nodup) : fs.Reads (parts ps) row ↔ AllGiven fs ps row := by
  induction fs with
  | nil => rfl
  | cons f rest ih =>
      obtain ⟨a, row⟩ := row
      have keys : ((parts ps).map Prod.fst).Nodup := by rwa [parts_keys]
      have entry : ∀ v, (f.name, v) ∈ parts ps ↔ ∃ text, (f.name, text) ∈ ps ∧ v = .part text := by
        intro v
        simp only [parts, List.mem_map, Prod.mk.injEq]
        constructor
        · rintro ⟨⟨k, text⟩, member, rfl, rfl⟩
          exact ⟨text, member, rfl⟩
        · rintro ⟨text, member, rfl⟩
          exact ⟨_, member, rfl, rfl⟩
      simp only [Fields.Reads, AllGiven, Given, Field.reads_iff_of_nodup keys, ih, parts_keys,
        entry, forall_exists_index, and_imp]
      refine and_congr_left fun _ => and_congr_left fun _ => ⟨fun each v member => ?_, ?_⟩
      · exact each _ v member rfl
      · rintro each _ v member rfl
        exact each v member

/-- **What a struct that denies unknown fields reads from a query**: known keys, none
twice, each with a value its field reads. -/
theorem decode_pairs_eq_ok {S : Type} (t : StructTable Query S) {ps : List (String × String)}
    {s : S} :
    t.decode true (.pairs ps) = .ok s ↔
      (∀ p ∈ ps, p.1 ∈ t.fields.names) ∧ (ps.map Prod.fst).Nodup ∧
        AllGiven t.fields ps (t.toRow s) := by
  have shape : deserializeStruct (Query.pairs ps) = .ok (.entries (parts ps)) := rfl
  rw [t.decode_entries_eq_ok true shape]
  have known : (∀ e ∈ parts ps, e.1 ∈ t.fields.names) ↔ ∀ p ∈ ps, p.1 ∈ t.fields.names := by
    simp only [parts, List.forall_mem_map]
  constructor
  · rintro ⟨reads, within⟩
    have distinct := reads.nodup_keys (within rfl)
    rw [parts_keys] at distinct
    exact ⟨known.mp (within rfl), distinct, (reads_parts distinct).mp reads⟩
  · rintro ⟨within, distinct, given⟩
    exact ⟨(reads_parts distinct).mpr given, fun _ => known.mpr within⟩

/-! ## What a struct writes -/

/-- The pairs of the entries a struct writes. -/
def written (es : List (String × Query)) : List (String × String) :=
  es.filterMap fun
    | (k, .part text) => some (k, text)
    | (_, .pairs _) => none

theorem parts_written {es : List (String × Query)} (texts : ∀ e ∈ es, ∃ text, e.2 = .part text) :
    parts (written es) = es := by
  induction es with
  | nil => rfl
  | cons e es ih =>
      obtain ⟨k, v⟩ := e
      obtain ⟨text, rfl⟩ : ∃ text, v = .part text := texts _ (.head _)
      have rest := ih fun e member => texts e (.tail _ member)
      show (k, Query.part text) :: parts (written es) = _
      rw [rest]

/-- **A query is read back as it is written**, by a struct that denies unknown fields too. -/
theorem decode_written {S : Type} (t : StructTable Query S) {s : S}
    (texts : ∀ e ∈ t.fields.entries (t.toRow s), ∃ text, e.2 = .part text) :
    t.decode true (.pairs (written (t.fields.entries (t.toRow s)))) = .ok s := by
  have shape : deserializeStruct (Query.pairs (written (t.fields.entries (t.toRow s)))) =
      .ok (.entries (t.fields.entries (t.toRow s))) :=
    congrArg (fun es => Except.ok (StructAccess.entries es)) (parts_written texts)
  have spelled := t.fields.spells_entries (t.toRow s)
  refine (t.decode_entries_eq_ok true shape).mpr ⟨?_, fun _ e member => ?_⟩
  · have reads : t.fields.Reads ([] ++ t.fields.entries (t.toRow s)) (t.toRow s) :=
      spelled.reads t.distinct (by simp)
    exact reads
  · exact spelled.keys.subset (List.mem_map_of_mem member)

end Query

end CrewList.Theory.Serde
