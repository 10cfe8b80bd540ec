/-
# CrewList.Theory.Additions -- documents in another order, or with more in them

A program may write the members of an object in another order, at any depth: `Reordered`
is that relation, and `Reordered.at_key` what it leaves at a key.  A newer program may
write further members besides: `Extends known` has those added, under keys that are not
`known`.  A codec is `Tolerant` of it if whatever extends a spelling of a value decodes to
that value.

Scalars are, since nothing extends them but themselves; options and lists are if their
contents are; and a derived struct that does not deny unknown fields is if its fields are
and their names are known (`StructTable.tolerant`).
-/
import CrewList.Theory.Json

namespace CrewList.Theory.Serde

set_option autoImplicit false

/-! ## The relation -/

/-- Members under one key, with related values. -/
inductive AtKey (R : Json → Json → Prop) : String × Json → String × Json → Prop where
  | intro (k : String) {v v' : Json} (related : R v v') : AtKey R (k, v) (k, v')

/-- The two documents differ in the order of members at most. -/
inductive Reordered : Json → Json → Prop where
  | same (v : Json) : Reordered v v
  | arr {vs vs' : List Json} (elements : List.Forall₂ Reordered vs vs') :
      Reordered (.arr vs) (.arr vs')
  | obj {es kept es' : List (String × Json)} (members : List.Forall₂ (AtKey Reordered) es kept)
      (perm : es'.Perm kept) : Reordered (.obj es) (.obj es')

/-- The second document says what the first says, and may say more. -/
inductive Extends (known : List String) : Json → Json → Prop where
  | same (v : Json) : Extends known v v
  | arr {vs vs' : List Json} (elements : List.Forall₂ (Extends known) vs vs') :
      Extends known (.arr vs) (.arr vs')
  | obj {es kept added es' : List (String × Json)}
      (members : List.Forall₂ (AtKey (Extends known)) es kept)
      (others : ∀ e ∈ added, e.1 ∉ known) (perm : es'.Perm (added ++ kept)) :
      Extends known (.obj es) (.obj es')

variable {known : List String} {α : Type}

/-- A value that is no array and no object. -/
def Json.IsScalar : Json → Prop
  | .arr _ | .obj _ => False
  | _ => True

theorem Extends.eq_of_isScalar {v v' : Json} (more : Extends known v v') (scalar : v.IsScalar) :
    v' = v := by
  cases more with
  | same v => rfl
  | arr elements => cases scalar
  | obj members others perm => cases scalar

/-! ## Reordered documents -/

/-- A scalar has one order. -/
theorem Reordered.eq_of_isScalar {v v' : Json} (same : Reordered v v')
    (scalar : v.IsScalar ∨ v'.IsScalar) : v' = v := by
  cases same with
  | same v => rfl
  | arr elements => rcases scalar with scalar | scalar <;> cases scalar
  | obj members perm => rcases scalar with scalar | scalar <;> cases scalar

/-- Member by member, and so at each key. -/
theorem AtKey.valuesAt {R : Json → Json → Prop} {es kept : List (String × Json)}
    (members : List.Forall₂ (AtKey R) es kept) (k : String) :
    List.Forall₂ R (valuesAt es k) (valuesAt kept k) := by
  induction members with
  | nil => exact .nil
  | cons member _ ih =>
      cases member with
      | intro j related =>
          by_cases here : j = k
          · subst here
            rw [valuesAt_cons_self, valuesAt_cons_self]
            exact .cons related ih
          · rw [valuesAt_cons_ne here, valuesAt_cons_ne here]
            exact ih

/-- A key is there in neither object, once in both, or more often in both. -/
theorem Reordered.at_key {es es' : List (String × Json)} (same : Reordered (.obj es) (.obj es'))
    (k : String) :
    (valuesAt es k = [] ∧ valuesAt es' k = []) ∨
      (∃ v v', valuesAt es k = [v] ∧ valuesAt es' k = [v'] ∧ Reordered v v') ∨
      1 < (valuesAt es k).length ∧ 1 < (valuesAt es' k).length := by
  obtain ⟨kept, members, perm⟩ :
      ∃ kept, List.Forall₂ (AtKey Reordered) es kept ∧ es'.Perm kept := by
    cases same with
    | same v => exact ⟨es, List.forall₂_same.mpr fun e _ => .intro e.1 (.same e.2), .refl _⟩
    | obj members perm => exact ⟨_, members, perm⟩
  have related := AtKey.valuesAt members k
  have moved : (valuesAt es' k).Perm (valuesAt kept k) := (perm.filter _).map _
  have length : (valuesAt es k).length = (valuesAt es' k).length :=
    related.length_eq.trans moved.length_eq.symm
  rcases here : valuesAt es k with - | ⟨v, - | ⟨w, rest⟩⟩ <;> rw [here] at related length
  · exact .inl ⟨rfl, List.length_eq_zero_iff.mp length.symm⟩
  · obtain ⟨v', there⟩ := List.length_eq_one_iff.mp length.symm
    rw [there] at moved
    rw [List.perm_singleton.mp moved.symm] at related
    cases related with
    | cons related _ => exact .inr (.inl ⟨v, v', rfl, there, related⟩)
  · refine .inr (.inr ⟨by simp, ?_⟩)
    rw [← length]
    simp

/-! ## Codecs -/

namespace Codec

/-- Whatever extends a spelling of a value decodes to it. -/
def Tolerant (known : List String) (c : Codec Json α) : Prop :=
  ∀ a v v', c.Spells a v → Extends known v v' → c.decode v' = .ok a

theorem canonical_tolerant {encode : α → Json} {decode : Json → Decoded α}
    {back : ∀ a, decode (encode a) = .ok a} (scalar : ∀ a, (encode a).IsScalar) :
    (canonical encode decode back).Tolerant known := by
  rintro a _ v' rfl more
  rw [more.eq_of_isScalar (scalar a)]
  exact back a

theorem bool_tolerant : (Codec.bool Json).Tolerant known := canonical_tolerant fun _ => trivial

theorem str_tolerant : (Codec.str Json).Tolerant known := canonical_tolerant fun _ => trivial

theorem i32_tolerant : (Codec.i32 Json).Tolerant known := canonical_tolerant fun _ => trivial

theorem i64_tolerant : (Codec.i64 Json).Tolerant known := canonical_tolerant fun _ => trivial

theorem text_tolerant (form : TextForm α) : (Codec.text Json form).Tolerant known :=
  canonical_tolerant fun _ => trivial

theorem unitEnum_tolerant {names : α → String} {variants : List α}
    (injective : Function.Injective names) (complete : ∀ a, a ∈ variants) :
    (Codec.unitEnum Json names variants injective complete).Tolerant known :=
  canonical_tolerant fun _ => trivial

/-- What extends the spelling of a content is not null. -/
theorem option_tolerant {c : Codec Json α} (nonNull : c.NonNull) (tolerant : c.Tolerant known) :
    (c.option nonNull).Tolerant known := by
  intro a v v' spelled more
  rw [Json.decode_option_eq_ok]
  cases a with
  | none =>
      cases spelled
      exact .inl ⟨more.eq_of_isScalar trivial, rfl⟩
  | some a =>
      refine .inr ⟨?_, a, rfl, tolerant a v v' spelled more⟩
      rintro rfl
      cases more
      have content := nonNull a _ spelled
      cases content

theorem list_tolerant {c : Codec Json α} (tolerant : c.Tolerant known) :
    c.list.Tolerant known := by
  rintro as _ v' ⟨vs, rfl, spelled⟩ more
  rw [Json.decode_list_eq_ok]
  have elements : ∃ vs', v' = .arr vs' ∧ List.Forall₂ (Extends known) vs vs' := by
    cases more with
    | same v => exact ⟨vs, rfl, List.forall₂_same.mpr fun v _ => .same v⟩
    | arr elements => exact ⟨_, rfl, elements⟩
  obtain ⟨vs', rfl, elements⟩ := elements
  refine ⟨vs', rfl, ?_⟩
  clear more
  induction spelled generalizing vs' with
  | nil =>
      cases elements
      exact .nil
  | cons head _ ih =>
      cases elements with
      | cons more elements => exact .cons (tolerant _ _ _ head more) (ih _ elements)

end Codec

/-! ## Structs -/

section Loose

variable {V : Type}

/-- The field, spelled by whatever it decodes. -/
def Field.loose (f : Field V α) : Field V α :=
  { f with
    Spells := fun a v => f.decode v = .ok a
    spells_encode := fun encoded => f.decode_spells (f.spells_encode encoded)
    decode_spells := id }

def Fields.loose {ρ σ : Type} : Fields V ρ σ → Fields V ρ σ
  | .nil => .nil
  | .cons f rest => .cons f.loose rest.loose

@[simp] theorem Fields.loose_names {ρ σ : Type} (fs : Fields V ρ σ) :
    fs.loose.names = fs.names := by
  induction fs with
  | nil => rfl
  | cons f rest ih => exact congrArg (f.name :: ·) ih

theorem Fields.loose_reads {ρ σ : Type} {fs : Fields V ρ σ} {es : List (String × V)} {row : ρ} :
    fs.loose.Reads es row ↔ fs.Reads es row := by
  induction fs with
  | nil => rfl
  | cons f rest ih => exact and_congr Iff.rfl ih

end Loose

/-- Whatever extends a spelling of the field's value decodes to it. -/
def Field.Tolerant (known : List String) (f : Field Json α) : Prop :=
  ∀ a v v', f.Spells a v → Extends known v v' → f.decode v' = .ok a

/-- Every field of a table is tolerant. -/
inductive Fields.Tolerant (known : List String) : {ρ σ : Type} → Fields Json ρ σ → Prop where
  | nil : Tolerant known .nil
  | cons {α β σ : Type} {f : Field Json α} {rest : Fields Json β σ} (field : f.Tolerant known)
      (others : rest.Tolerant known) : Tolerant known (.cons f rest)

/-- What extends the parts of a row decodes to its parts. -/
theorem Fields.Tolerant.spells {ρ σ : Type} {fs : Fields Json ρ σ} (tolerant : fs.Tolerant known)
    {row : ρ} {parts parts' : List (String × Json)} (spelled : fs.Spells row parts)
    (members : List.Forall₂ (AtKey (Extends known)) parts parts') :
    fs.loose.Spells row parts' := by
  induction tolerant generalizing parts parts' with
  | nil =>
      cases spelled
      cases members
      rfl
  | cons field _ ih =>
      obtain ⟨a, row⟩ := row
      rcases spelled with ⟨v, parts, rfl, spelled, after⟩ | ⟨default, after⟩
      · cases members with
        | cons member members =>
            cases member with
            | intro k more =>
                exact .inl ⟨_, _, rfl, field a _ _ spelled more, ih after members⟩
      · exact .inr ⟨default, ih after members⟩

/-- **A derived struct** that skips unknown fields reads whatever extends a spelling. -/
theorem StructTable.tolerant {S : Type} (t : StructTable Json S) (names : t.fields.names ⊆ known)
    (tolerant : t.fields.Tolerant known) : (t.codec false).Tolerant known := by
  rintro s _ v' ⟨es, parts, rfl, perm, spelled⟩ more
  have members : ∃ es' kept added, v' = .obj es' ∧ List.Forall₂ (AtKey (Extends known)) es kept ∧
      (∀ e ∈ added, e.1 ∉ known) ∧ es'.Perm (added ++ kept) := by
    cases more with
    | same v =>
        refine ⟨es, es, [], rfl, ?_, by simp, .refl _⟩
        exact List.forall₂_same.mpr fun e _ => .intro e.1 (.same e.2)
    | obj members others perm => exact ⟨_, _, _, rfl, members, others, perm⟩
  obtain ⟨es', kept, added, rfl, members, others, around⟩ := members
  obtain ⟨parts', members, perm⟩ := List.perm_comp_forall₂ perm.symm members
  -- in the order of the fields, with the added members first
  have foreign : ∀ e ∈ added, e.1 ∉ t.fields.loose.names := fun e member name =>
    others e member (names (t.fields.loose_names ▸ name))
  have distinct : t.fields.loose.names.Nodup := t.fields.loose_names ▸ t.distinct
  have reads := (tolerant.spells spelled members).reads distinct foreign
  refine (t.decode_entries_eq_ok false (LawfulFormat.map es')).mpr ⟨?_, by simp⟩
  exact (Fields.loose_reads.mp reads).perm (around.trans (perm.symm.append_left added)).symm

end CrewList.Theory.Serde
