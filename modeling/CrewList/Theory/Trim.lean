/-
# CrewList.Theory.Trim -- trimming a list at both ends

`trim p l` drops the elements satisfying `p` from both ends of `l`.  `trim_eq_iff`
characterises it without the recursion: the result is the one stretch of `l`
between two runs of such elements that neither starts nor ends with one.  What
relates two notions of trimming follows from it: trimming less at the ends finds
nothing left after trimming more (`trim_trim_of_weaker`).
-/
import Mathlib

namespace CrewList.Theory

set_option autoImplicit false

variable {α : Type} {p q : α → Bool} {l core : List α}

def trim (p : α → Bool) (l : List α) : List α := (l.dropWhile p).rdropWhile p

/-- `l` is `core` between two runs of elements satisfying `p`. -/
def Padded (p : α → Bool) (l core : List α) : Prop :=
  ∃ before after, l = before ++ core ++ after ∧ (∀ a ∈ before, p a = true) ∧
    ∀ a ∈ after, p a = true

/-- Neither end satisfies `p`. -/
def Bare (p : α → Bool) (l : List α) : Prop :=
  (∀ a ∈ l.head?, p a = false) ∧ ∀ a ∈ l.getLast?, p a = false

/-! ## The two ends -/

theorem dropWhile_append_of_all {before : List α} (run : ∀ a ∈ before, p a = true)
    (rest : List α) : (before ++ rest).dropWhile p = rest.dropWhile p := by
  induction before with
  | nil => rfl
  | cons a before ih =>
      rw [List.cons_append, List.dropWhile_cons_of_pos (run a (.head _))]
      exact ih fun b member => run b (.tail _ member)

theorem rdropWhile_append_of_all {after : List α} (run : ∀ a ∈ after, p a = true)
    (rest : List α) : (rest ++ after).rdropWhile p = rest.rdropWhile p := by
  rw [List.rdropWhile, List.rdropWhile, List.reverse_append,
    dropWhile_append_of_all fun a member => run a (List.mem_reverse.mp member)]

theorem exists_run_dropWhile (p : α → Bool) (l : List α) :
    ∃ before, l = before ++ l.dropWhile p ∧ ∀ a ∈ before, p a = true := by
  refine ⟨l.takeWhile p, List.takeWhile_append_dropWhile.symm, fun a member => ?_⟩
  exact List.mem_takeWhile_imp member

theorem exists_rdropWhile_run (p : α → Bool) (l : List α) :
    ∃ after, l = l.rdropWhile p ++ after ∧ ∀ a ∈ after, p a = true :=
  ⟨l.rtakeWhile p, List.rdropWhile_append_rtakeWhile.symm, fun _ member =>
    List.mem_rtakeWhile_imp member⟩

theorem head?_dropWhile_false {a : α} (first : a ∈ (l.dropWhile p).head?) : p a = false := by
  have := List.head?_dropWhile_not p l
  rw [Option.mem_def.mp first] at this
  simpa using this

/-! ## The characterisation -/

theorem padded_trim (p : α → Bool) (l : List α) : Padded p l (trim p l) := by
  obtain ⟨before, front, runBefore⟩ := exists_run_dropWhile p l
  obtain ⟨after, back, runAfter⟩ := exists_rdropWhile_run p (l.dropWhile p)
  refine ⟨before, after, ?_, runBefore, runAfter⟩
  rw [List.append_assoc, trim, ← back]
  exact front

theorem bare_trim (p : α → Bool) (l : List α) : Bare p (trim p l) := by
  obtain ⟨after, back, -⟩ := exists_rdropWhile_run p (l.dropWhile p)
  constructor
  · intro a first
    -- a nonempty rest keeps the first element of what it was cut from
    refine head?_dropWhile_false (l := l) ?_
    rw [back, List.head?_append]
    rw [trim] at first
    rw [Option.mem_def.mp first]
    rfl
  · intro a last
    rw [trim, List.rdropWhile, List.getLast?_reverse] at last
    exact head?_dropWhile_false last

theorem trim_of_bare (bare : Bare p core) : trim p core = core := by
  have front : core.dropWhile p = core := by
    cases core with
    | nil => rfl
    | cons a rest => exact List.dropWhile_cons_of_neg (by simp [bare.1 a rfl])
  rw [trim, front, List.rdropWhile_eq_self_iff]
  intro nonempty
  simp [bare.2 _ (List.getLast?_eq_getLast_of_ne_nil nonempty)]

theorem Padded.trim_eq (padded : Padded p l core) : trim p l = trim p core := by
  obtain ⟨before, after, rfl, runBefore, runAfter⟩ := padded
  rw [trim, List.append_assoc, dropWhile_append_of_all runBefore]
  by_cases inside : ∃ a ∈ core, p a = false
  · have stops : ∀ {m : List α}, (∃ a ∈ m, p a = false) →
        (m ++ after).dropWhile p = m.dropWhile p ++ after := by
      intro m found
      rw [List.dropWhile_append]
      simp only [List.isEmpty_iff, List.dropWhile_eq_nil_iff, ite_eq_right_iff]
      intro all
      obtain ⟨a, member, kept⟩ := found
      rw [all a member] at kept
      cases kept
    rw [stops inside, rdropWhile_append_of_all runAfter, trim]
  · have all : ∀ a ∈ core, p a = true := by
      intro a member
      by_contra kept
      exact inside ⟨a, member, by simpa using kept⟩
    rw [dropWhile_append_of_all all, trim, List.dropWhile_eq_nil_iff.mpr all,
      List.dropWhile_eq_nil_iff.mpr runAfter]

/-- **Trimming, without the recursion.** -/
theorem trim_eq_iff : trim p l = core ↔ Padded p l core ∧ Bare p core := by
  constructor
  · rintro rfl
    exact ⟨padded_trim p l, bare_trim p l⟩
  · rintro ⟨padded, bare⟩
    rw [padded.trim_eq, trim_of_bare bare]

/-! ## Consequences -/

theorem Padded.mono (padded : Padded q l core) (weaker : ∀ a, q a = true → p a = true) :
    Padded p l core := by
  obtain ⟨before, after, split, runBefore, runAfter⟩ := padded
  exact ⟨before, after, split, fun a member => weaker a (runBefore a member),
    fun a member => weaker a (runAfter a member)⟩

/-- Trimming less leaves what trimming more has left. -/
theorem trim_trim_of_weaker (weaker : ∀ a, q a = true → p a = true) :
    trim q (trim p l) = trim p l := by
  refine trim_of_bare ⟨fun a first => ?_, fun a last => ?_⟩
  · by_contra kept
    have := (bare_trim p l).1 a first
    rw [weaker a (by simpa using kept)] at this
    cases this
  · by_contra kept
    have := (bare_trim p l).2 a last
    rw [weaker a (by simpa using kept)] at this
    cases this

theorem length_trim_le (p : α → Bool) (l : List α) : (trim p l).length ≤ l.length := by
  obtain ⟨before, after, split, -, -⟩ := padded_trim p l
  have total := congrArg List.length split
  simp only [List.length_append] at total
  omega

theorem trim_eq_nil : trim p l = [] ↔ ∀ a ∈ l, p a = true := by
  constructor
  · intro empty
    obtain ⟨before, after, split, runBefore, runAfter⟩ := padded_trim p l
    intro a member
    rw [split, empty, List.append_nil] at member
    exact (List.mem_append.mp member).elim (runBefore a) (runAfter a)
  · intro all
    rw [trim, List.dropWhile_eq_nil_iff.mpr all]
    rfl

end CrewList.Theory
