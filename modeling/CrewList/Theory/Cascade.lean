/-
# CrewList.Theory.Cascade -- deletion along a reference

Rows have a key, and each may refer to the key of another.  Deleting some keys under
a cascade deletes what refers to them, then what refers to that, round by round until
a round finds nothing (`cascade`).  The abstract account is a chain of references:
`Below t gone r` says that one leads from `r` into the keys `gone`.

* `mem_cascade`: what stays is what no chain leads from;
* `RefersWithin.deleteKeys`: after a deletion every reference still finds its row;
* `Grounded`: every chain of references ends at a row without one.  A new row that
  refers to an old one keeps it (`Grounded.cons`), and so does a deletion
  (`Grounded.deleteKeys`).  A new reference of one row keeps it exactly when the row it
  leads to does not lead back (`Redirects.grounded_iff`).
-/
import Mathlib

namespace CrewList.Theory.Cascade

set_option autoImplicit false

variable {R K : Type}

section Chains

variable (key : R → K) (ref : R → Option K) (t : List R)

/-- A chain of references between rows of `t` leads from the row into `gone`. -/
inductive Below (gone : List K) : R → Prop where
  | direct {r : R} {k : K} : r ∈ t → ref r = some k → k ∈ gone → Below gone r
  | through {r p : R} : r ∈ t → ref r = some (key p) → Below gone p → Below gone r

/-- The chain of references from the row ends, at a row without one. -/
inductive Rooted : R → Prop where
  | root {r : R} : r ∈ t → ref r = none → Rooted r
  | child {r p : R} : r ∈ t → ref r = some (key p) → Rooted p → Rooted r

def Grounded : Prop := ∀ r ∈ t, Rooted key ref t r

/-- Every reference finds its row. -/
def RefersWithin : Prop := ∀ r ∈ t, ∀ k ∈ ref r, k ∈ t.map key

end Chains

variable {key : R → K} {ref : R → Option K} {gone : List K} {t : List R} {r : R}

theorem Below.mem (below : Below key ref t gone r) : r ∈ t := by
  cases below with
  | direct member _ _ => exact member
  | through member _ _ => exact member

theorem Rooted.mem (rooted : Rooted key ref t r) : r ∈ t := by
  cases rooted with
  | root member _ => exact member
  | child member _ _ => exact member

section Deletion

variable [DecidableEq K]

instance (key : R → K) (ref : R → Option K) (t : List R) : Decidable (RefersWithin key ref t) :=
  decidable_of_iff (∀ r ∈ t, (ref r).all (fun k => decide (k ∈ t.map key)) = true) <|
    forall₂_congr fun r _ => by simp only [Option.all_eq_true, decide_eq_true_eq, Option.mem_def]

/-! ## Rounds -/

/-- The row refers to one of the keys. -/
def refersTo (ref : R → Option K) (gone : List K) (r : R) : Bool :=
  match ref r with
  | some k => decide (k ∈ gone)
  | none => false

/-- The rows that outlive the keys `gone`: each round takes the rows that refer to a
key of the round before. -/
def cascade (key : R → K) (ref : R → Option K) : Nat → List K → List R → List R
  | 0, _, t => t
  | rounds + 1, gone, t =>
      cascade key ref rounds ((t.filter (refersTo ref gone)).map key)
        (t.filter fun r => !refersTo ref gone r)

/-- Delete the rows with these keys, and cascade. -/
def deleteKeys (key : R → K) (ref : R → Option K) (gone : List K) (t : List R) : List R :=
  cascade key ref t.length gone (t.filter fun r => decide (key r ∉ gone))

theorem refersTo_iff : refersTo ref gone r = true ↔ ∃ k, ref r = some k ∧ k ∈ gone := by
  unfold refersTo
  cases ref r with
  | none => simp
  | some k => simp

theorem cascade_sublist (rounds : Nat) : (cascade key ref rounds gone t).Sublist t := by
  induction rounds generalizing gone t with
  | zero => exact .refl t
  | succ rounds ih => exact ih.trans List.filter_sublist

theorem deleteKeys_sublist : (deleteKeys key ref gone t).Sublist t :=
  (cascade_sublist _).trans List.filter_sublist

/-! ## What a round does to the chains -/

/-- Below the keys of a round are the rows it takes, and what is below those in what
it leaves. -/
theorem below_iff : Below key ref t gone r ↔
    (r ∈ t ∧ refersTo ref gone r = true) ∨
      Below key ref (t.filter fun r => !refersTo ref gone r)
        ((t.filter (refersTo ref gone)).map key) r := by
  constructor
  · intro below
    induction below with
    | direct member refers inside =>
        exact .inl ⟨member, refersTo_iff.mpr ⟨_, refers, inside⟩⟩
    | @through r p member refers _ ih =>
        by_cases taken : refersTo ref gone r = true
        · exact .inl ⟨member, taken⟩
        · have kept : r ∈ t.filter fun r => !refersTo ref gone r :=
            List.mem_filter.mpr ⟨member, by simpa using taken⟩
          right
          rcases ih with ⟨inTable, takenParent⟩ | below
          · apply Below.direct kept refers
            exact List.mem_map_of_mem (List.mem_filter.mpr ⟨inTable, takenParent⟩)
          · exact .through kept refers below
  · rintro (⟨member, taken⟩ | below)
    · obtain ⟨k, refers, inside⟩ := refersTo_iff.mp taken
      exact .direct member refers inside
    · induction below with
      | direct member refers inside =>
          obtain ⟨p, taken, rfl⟩ := List.mem_map.mp inside
          obtain ⟨inTable, takenParent⟩ := List.mem_filter.mp taken
          obtain ⟨k, refersParent, insideGone⟩ := refersTo_iff.mp takenParent
          apply Below.through (List.mem_filter.mp member).1 refers
          exact .direct inTable refersParent insideGone
      | through member refers _ ih =>
          exact .through (List.mem_filter.mp member).1 refers ih

theorem not_below_of_unreferred (unreferred : ∀ r ∈ t, refersTo ref gone r = false) :
    ¬ Below key ref t gone r := by
  intro below
  induction below with
  | direct member refers inside =>
      have taken := refersTo_iff.mpr ⟨_, refers, inside⟩
      rw [unreferred _ member] at taken
      cases taken
  | through _ _ _ ih => exact ih

/-- Rounds that find nothing change nothing. -/
theorem cascade_of_unreferred (rounds : Nat) (unreferred : ∀ r ∈ t, refersTo ref gone r = false) :
    cascade key ref rounds gone t = t := by
  induction rounds generalizing gone with
  | zero => rfl
  | succ rounds ih =>
      have noneTaken : t.filter (refersTo ref gone) = [] := by
        apply List.filter_eq_nil_iff.mpr
        intro r member
        rw [unreferred r member]
        exact Bool.false_ne_true
      have allKept : (t.filter fun r => !refersTo ref gone r) = t := by
        apply List.filter_eq_self.mpr
        intro r member
        rw [unreferred r member]
        rfl
      rw [cascade, noneTaken, allKept]
      apply ih
      intro r member
      cases refers : ref r <;> simp [refersTo, refers]

/-- **What a cascade leaves**, given a round for every row. -/
theorem mem_cascade {rounds : Nat} (enough : t.length ≤ rounds) :
    r ∈ cascade key ref rounds gone t ↔ r ∈ t ∧ ¬ Below key ref t gone r := by
  induction rounds generalizing gone t with
  | zero =>
      have empty : t = [] := List.length_eq_zero_iff.mp (by omega)
      simp [cascade, empty]
  | succ rounds ih =>
      by_cases found : ∃ r ∈ t, refersTo ref gone r = true
      · obtain ⟨taken, member, refers⟩ := found
        have shorter : (t.filter fun r => !refersTo ref gone r).length < t.length := by
          apply List.length_filter_lt_length_iff_exists.mpr
          exact ⟨taken, member, by simp [refers]⟩
        rw [cascade, ih (by omega), below_iff (t := t), List.mem_filter]
        simp only [Bool.not_eq_true', not_or, not_and, Bool.not_eq_true]
        exact ⟨fun ⟨⟨inTable, kept⟩, free⟩ => ⟨inTable, fun _ => kept, free⟩,
          fun ⟨inTable, kept, free⟩ => ⟨⟨inTable, kept inTable⟩, free⟩⟩
      · have unreferred : ∀ r ∈ t, refersTo ref gone r = false := by
          intro r member
          by_contra refers
          exact found ⟨r, member, by simpa using refers⟩
        rw [cascade_of_unreferred _ unreferred]
        exact ⟨fun member => ⟨member, not_below_of_unreferred unreferred⟩, And.left⟩

/-! ## Deletion -/

/-- Among the rows under other keys the chains into `gone` are the same. -/
theorem below_filter (other : key r ∉ gone) :
    Below key ref (t.filter fun r => decide (key r ∉ gone)) gone r ↔ Below key ref t gone r := by
  constructor
  · intro below
    clear other
    induction below with
    | direct member refers inside => exact .direct (List.mem_filter.mp member).1 refers inside
    | through member refers _ ih => exact .through (List.mem_filter.mp member).1 refers ih
  · intro below
    induction below with
    | direct member refers inside =>
        exact .direct (List.mem_filter.mpr ⟨member, decide_eq_true other⟩) refers inside
    | @through r p member refers _ ih =>
        have kept : r ∈ t.filter fun r => decide (key r ∉ gone) :=
          List.mem_filter.mpr ⟨member, decide_eq_true other⟩
        by_cases target : key p ∈ gone
        · exact .direct kept refers target
        · exact .through kept refers (ih target)

/-- **What a deletion leaves.** -/
theorem mem_deleteKeys : r ∈ deleteKeys key ref gone t ↔
    r ∈ t ∧ key r ∉ gone ∧ ¬ Below key ref t gone r := by
  rw [deleteKeys, mem_cascade (List.length_filter_le ..), List.mem_filter, decide_eq_true_eq,
    and_assoc]
  refine and_congr_right fun _ => and_congr_right fun other => ?_
  rw [below_filter other]

/-- What a row that stays refers to stays. -/
theorem mem_deleteKeys_of_refers {p : R} (stays : r ∈ deleteKeys key ref gone t)
    (refers : ref r = some (key p)) (member : p ∈ t) : p ∈ deleteKeys key ref gone t := by
  obtain ⟨inTable, -, free⟩ := mem_deleteKeys.mp stays
  apply mem_deleteKeys.mpr
  refine ⟨member, fun target => free ?_, fun below => free ?_⟩
  · exact .direct inTable refers target
  · exact .through inTable refers below

theorem RefersWithin.deleteKeys (within : RefersWithin key ref t) :
    RefersWithin key ref (deleteKeys key ref gone t) := by
  intro r stays k refers
  have found := within r (mem_deleteKeys.mp stays).1 k refers
  obtain ⟨p, member, rfl⟩ := List.mem_map.mp found
  exact List.mem_map_of_mem (mem_deleteKeys_of_refers stays refers member)

theorem Grounded.deleteKeys (grounded : Grounded key ref t) :
    Grounded key ref (deleteKeys key ref gone t) := by
  intro r stays
  have rooted := grounded r (mem_deleteKeys.mp stays).1
  induction rooted with
  | root _ refers => exact .root stays refers
  | child _ refers rooted ih =>
      exact .child stays refers (ih (mem_deleteKeys_of_refers stays refers rooted.mem))

end Deletion

/-! ## Insertion -/

theorem Rooted.cons (new : R) (rooted : Rooted key ref t r) : Rooted key ref (new :: t) r := by
  induction rooted with
  | root member refers => exact .root (.tail _ member) refers
  | child member refers _ ih => exact .child (.tail _ member) refers ih

/-- A row that refers to an earlier one, or to none, keeps the chains finite. -/
theorem Grounded.cons (grounded : Grounded key ref t) {new : R}
    (earlier : ∀ k ∈ ref new, k ∈ t.map key) : Grounded key ref (new :: t) := by
  intro r member
  rcases List.mem_cons.mp member with rfl | old
  · cases refers : ref r with
    | none => exact .root (.head _) refers
    | some k =>
        obtain ⟨p, inTable, rfl⟩ := List.mem_map.mp (earlier k refers)
        exact .child (.head _) refers ((grounded p inTable).cons r)
  · exact (grounded r old).cons new

/-! ## A new reference -/

/-- The change keeps every key, and every reference but that of the row under `k`. -/
structure Redirects (key : R → K) (ref : R → Option K) (k : K) (f : R → R) (t : List R) :
    Prop where
  sameKey : ∀ r ∈ t, key (f r) = key r
  sameRef : ∀ r ∈ t, key r ≠ k → ref (f r) = ref r

/-- The row is the one under `k`, or a chain leads from it there. -/
def LeadsTo (key : R → K) (ref : R → Option K) (t : List R) (k : K) (r : R) : Prop :=
  key r = k ∨ Below key ref t [k] r

section Redirection

variable {k : K} {f : R → R}

/-- A chain that does not meet the row is as before. -/
theorem Redirects.rooted (redirects : Redirects key ref k f t) (rooted : Rooted key ref t r)
    (free : ¬ LeadsTo key ref t k r) : Rooted key ref (t.map f) (f r) := by
  have sameRef : ∀ r ∈ t, ¬ LeadsTo key ref t k r → ref (f r) = ref r := by
    intro r member free
    exact redirects.sameRef r member fun here => free (.inl here)
  induction rooted with
  | root member refers =>
      exact .root (List.mem_map_of_mem member) ((sameRef _ member free).trans refers)
  | @child r p member refers rooted ih =>
      have freeParent : ¬ LeadsTo key ref t k p := by
        rintro (here | below)
        · exact free (.inr (.direct member refers (List.mem_singleton.mpr here)))
        · exact free (.inr (.through member refers below))
      have refers' := (sameRef _ member free).trans refers
      rw [← redirects.sameKey _ rooted.mem] at refers'
      exact .child (List.mem_map_of_mem member) refers' (ih freeParent)

/-- Once the row refers to one that leads to it, the rows that lead to it refer to
one another. -/
theorem Redirects.onward (redirects : Redirects key ref k f t) (unique : (t.map key).Nodup)
    (closes : ∀ r ∈ t, key r = k → ∃ p ∈ t, ref (f r) = some (key p) ∧ LeadsTo key ref t k p)
    (member : r ∈ t) (leads : LeadsTo key ref t k r) :
    ∃ j, ref (f r) = some j ∧ ∀ q ∈ t, key q = j → LeadsTo key ref t k q := by
  have one : ∀ p ∈ t, LeadsTo key ref t k p → ∀ q ∈ t, key q = key p → LeadsTo key ref t k q := by
    intro p parent leads q inTable same
    rwa [List.inj_on_of_nodup_map unique inTable parent same]
  by_cases here : key r = k
  · obtain ⟨p, parent, refers, leads⟩ := closes r member here
    exact ⟨key p, refers, one p parent leads⟩
  · rw [redirects.sameRef r member here]
    cases leads.resolve_left here with
    | direct _ refers target =>
        rw [List.mem_singleton.mp target] at refers
        exact ⟨k, refers, fun q _ same => .inl same⟩
    | through _ refers below => exact ⟨_, refers, one _ below.mem (.inr below)⟩

/-- So no chain from them ends. -/
theorem Redirects.not_rooted (redirects : Redirects key ref k f t) (unique : (t.map key).Nodup)
    (closes : ∀ r ∈ t, key r = k → ∃ p ∈ t, ref (f r) = some (key p) ∧ LeadsTo key ref t k p)
    (member : r ∈ t) (leads : LeadsTo key ref t k r) : ¬ Rooted key ref (t.map f) (f r) := by
  intro rooted
  generalize changed : f r = y at rooted
  induction rooted generalizing r with
  | root _ refers =>
      subst changed
      obtain ⟨j, refers', -⟩ := redirects.onward unique closes member leads
      rw [refers] at refers'
      cases refers'
  | child _ refers rooted ih =>
      subst changed
      obtain ⟨j, refers', leads'⟩ := redirects.onward unique closes member leads
      obtain ⟨q, inTable, rfl⟩ := List.mem_map.mp rooted.mem
      rw [refers, Option.some_inj, redirects.sameKey q inTable] at refers'
      exact ih inTable (leads' q inTable refers') rfl

/-- **When a new reference keeps the chains finite**: exactly when the row it leads to does
not lead back. -/
theorem Redirects.grounded_iff (redirects : Redirects key ref k f t)
    (unique : (t.map key).Nodup) (within : RefersWithin key ref (t.map f))
    (grounded : Grounded key ref t) :
    Grounded key ref (t.map f) ↔
      ∀ r ∈ t, key r = k → ∀ p ∈ t, ref (f r) = some (key p) → ¬ LeadsTo key ref t k p := by
  constructor
  · intro still r member here p parent refers leads
    refine redirects.not_rooted unique ?_ member (.inl here)
      (still (f r) (List.mem_map_of_mem member))
    intro r' member' here'
    rw [List.inj_on_of_nodup_map unique member' member (here'.trans here.symm)]
    exact ⟨p, parent, refers, leads⟩
  · intro free
    have changed : ∀ r ∈ t, key r = k → Rooted key ref (t.map f) (f r) := by
      intro r member here
      have inNew := List.mem_map_of_mem (f := f) member
      cases refers : ref (f r) with
      | none => exact .root inNew refers
      | some j =>
          obtain ⟨p', parent', rfl⟩ := List.mem_map.mp (within (f r) inNew j refers)
          obtain ⟨p, parent, rfl⟩ := List.mem_map.mp parent'
          have refers' := refers
          rw [redirects.sameKey p parent] at refers'
          have apart := free r member here p parent refers'
          exact .child inNew refers (redirects.rooted (grounded p parent) apart)
    intro r' member'
    obtain ⟨r, member, rfl⟩ := List.mem_map.mp member'
    have rooted := grounded r member
    clear member'
    induction rooted with
    | @root r member refers =>
        by_cases here : key r = k
        · exact changed r member here
        · have same := redirects.sameRef r member here
          exact .root (List.mem_map_of_mem member) (same.trans refers)
    | @child r p member refers rooted ih =>
        by_cases here : key r = k
        · exact changed r member here
        · have refers' := (redirects.sameRef r member here).trans refers
          rw [← redirects.sameKey _ rooted.mem] at refers'
          exact .child (List.mem_map_of_mem member) refers' (ih rooted.mem)

end Redirection

end CrewList.Theory.Cascade
