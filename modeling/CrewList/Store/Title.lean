/-
# CrewList.Store.Title -- the CHECK on `tasks.title`

The constraint counts the characters `btrim` leaves, and `btrim` removes spaces
only; the rule for titles, and the trim the server is to apply before storing one,
is `str::trim`, which removes every white space.  The two agree on a title padded
with spaces.  `title_check_exact` says on which titles they agree at all:
everything turns on the stretch between the outermost characters that are not
spaces, which is what the constraint measures.
-/
import CrewList.Core.Task
import CrewList.Theory.Trim

namespace CrewList.Store

open CrewList.Core
open CrewList.Theory

set_option autoImplicit false

/-- A `TEXT` value: any characters but NUL, which PostgreSQL cannot store. -/
structure PgText where
  text : String
  noNul : Char.ofNat 0 ∉ text.toList

/-! ## Trimming in SQL and in Rust -/

def isSpace (c : Char) : Bool := c = ' '

/-- `btrim` with one argument. -/
def btrim (s : List Char) : List Char := trim isSpace s

def charLength (s : List Char) : Nat := s.length

/-- `char::is_whitespace`: the Unicode property `White_Space`. -/
def isWhitespace (c : Char) : Bool :=
  let n := c.toNat
  (0x09 ≤ n && n ≤ 0x0D) || n = 0x20 || n = 0x85 || n = 0xA0 || n = 0x1680 ||
    (0x2000 ≤ n && n ≤ 0x200A) || n = 0x2028 || n = 0x2029 || n = 0x202F || n = 0x205F ||
    n = 0x3000

/-- `str::trim`. -/
def strTrim (s : List Char) : List Char := trim isWhitespace s

theorem isWhitespace_of_isSpace (c : Char) (space : isSpace c = true) :
    isWhitespace c = true := by
  cases of_decide_eq_true space
  rfl

/-! ## The constraint and the rule -/

/-- `CHECK (char_length(btrim(title)) BETWEEN 1 AND 500)` -/
def titleCheck (title : PgText) : Bool :=
  1 ≤ charLength (btrim title.text.toList) && charLength (btrim title.text.toList) ≤ 500

/-- Trimmed, the title has at least 1 and at most `titleMaxChars` characters. -/
def LegalTitle (title : PgText) : Prop :=
  1 ≤ charLength (strTrim title.text.toList) ∧
    charLength (strTrim title.text.toList) ≤ titleMaxChars

def Blank (s : List Char) : Prop := ∀ c ∈ s, isWhitespace c = true

/-- What the constraint accepts, as a rule on the stretch between the outermost
characters that are not spaces. -/
theorem titleCheck_iff {title : PgText} {inner : List Char}
    (padded : Padded isSpace title.text.toList inner) (bare : Bare isSpace inner) :
    titleCheck title = true ↔ inner ≠ [] ∧ inner.length ≤ 500 := by
  have stretch : btrim title.text.toList = inner := trim_eq_iff.mpr ⟨padded, bare⟩
  simp only [titleCheck, stretch, charLength, Bool.and_eq_true, decide_eq_true_eq,
    Nat.one_le_iff_ne_zero, ne_eq, List.length_eq_zero_iff]

theorem strTrim_of_padded {s inner : List Char} (padded : Padded isSpace s inner) :
    strTrim s = strTrim inner :=
  (padded.mono isWhitespace_of_isSpace).trim_eq

/-- On a title of which `inner` is what lies between the outermost characters that
are not spaces, the constraint and the rule agree: there is no such character; or
there are only white spaces between them, too many for the constraint; or the
stretch fits, or the trimmed title does not either. -/
def AgreesOn (inner : List Char) : Prop :=
  inner = [] ∨ (Blank inner ∧ 500 < inner.length) ∨
    (¬ Blank inner ∧ (inner.length ≤ 500 ∨ titleMaxChars < (strTrim inner).length))

/-- **The title guard.**  The constraint accepts a title exactly when the title is
legal, if and only if the stretch between its outermost non-space characters is one
the two agree on. -/
theorem title_check_exact (title : PgText) :
    (titleCheck title = true ↔ LegalTitle title) ↔
      ∃ inner, Padded isSpace title.text.toList inner ∧ Bare isSpace inner ∧ AgreesOn inner := by
  have stretch : ∀ inner, Padded isSpace title.text.toList inner → Bare isSpace inner →
      ((titleCheck title = true ↔ LegalTitle title) ↔ AgreesOn inner) := by
    intro inner padded bare
    have fits : (strTrim inner).length ≤ inner.length := length_trim_le _ _
    have blank : strTrim inner = [] ↔ Blank inner := trim_eq_nil
    rw [titleCheck_iff padded bare, LegalTitle, strTrim_of_padded padded, charLength, AgreesOn,
      ← blank, titleMaxChars, Nat.one_le_iff_ne_zero]
    simp only [ne_eq, List.length_eq_zero_iff]
    by_cases none : inner = []
    · subst none
      simp [strTrim, trim]
    · by_cases trimmed : strTrim inner = []
      · simp [none, trimmed]
      · simp only [none, trimmed, not_false_eq_true, true_and, false_or, false_and]
        omega
  constructor
  · intro agrees
    have padded := padded_trim isSpace title.text.toList
    have bare := bare_trim isSpace title.text.toList
    exact ⟨_, padded, bare, (stretch _ padded bare).mp agrees⟩
  · rintro ⟨inner, padded, bare, agrees⟩
    exact (stretch inner padded bare).mpr agrees

/-- A tab is stored as a title although it is blank. -/
theorem tab_accepted :
    ¬ ∀ title : PgText, titleCheck title = true ↔ LegalTitle title := by
  intro claimed
  have legal := (claimed ⟨"\t", by decide⟩).mp (by decide)
  exact absurd legal.1 (by decide)

/-! ## Trimming first -/

/-- The title after `str::trim`. -/
def PgText.trimmed (title : PgText) : PgText where
  text := String.ofList (strTrim title.text.toList)
  noNul := by
    obtain ⟨before, after, split, -⟩ := padded_trim isWhitespace title.text.toList
    intro nul
    refine title.noNul ?_
    rw [String.toList_ofList] at nul
    rw [split]
    exact List.mem_append_left _ (List.mem_append_right _ nul)

/-- A title trimmed before it is offered meets exactly the rule. -/
theorem titleCheck_trimmed (title : PgText) :
    titleCheck title.trimmed = true ↔ LegalTitle title := by
  have settled : btrim (strTrim title.text.toList) = strTrim title.text.toList :=
    trim_trim_of_weaker isWhitespace_of_isSpace
  simp [titleCheck, LegalTitle, PgText.trimmed, settled, titleMaxChars]

end CrewList.Store
