/-
# CrewList.Theory.Runs -- runs of labelled steps, and what holds along them

A system is a relation `step s l t`; a run is a finite sequence of its steps with
the labels they carry.  Two rules carry every argument about runs: what each step
preserves holds at the end (`Run.invariant`), and what each step preserves of a
state together with the labels so far holds of the whole list (`Run.history`).  Where
the next state is a function of the label, and a property survives some steps and not
others, `always_iff` says along which runs it holds.
-/
import Mathlib

namespace CrewList.Theory

set_option autoImplicit false

variable {S L : Type} {step : S → L → S → Prop}

inductive Run (step : S → L → S → Prop) : S → List L → S → Prop where
  | nil (s : S) : Run step s [] s
  | cons {s t u : S} {l : L} {ls : List L} :
      step s l t → Run step t ls u → Run step s (l :: ls) u

namespace Run

theorem append {s t u : S} {ls ms : List L} (first : Run step s ls t) (second : Run step t ms u) :
    Run step s (ls ++ ms) u := by
  induction first with
  | nil s => exact second
  | cons head _ ih => exact .cons head (ih second)

/-- What every step whose label satisfies `Q` preserves holds at the end of a run
of such labels. -/
theorem invariant_on {P : S → Prop} {Q : L → Prop}
    (kept : ∀ {s l t}, P s → Q l → step s l t → P t) {s t : S} {ls : List L}
    (run : Run step s ls t) (start : P s) (labels : ∀ l ∈ ls, Q l) : P t := by
  induction run with
  | nil s => exact start
  | cons head _ ih =>
      have next := kept start (labels _ (.head _)) head
      exact ih next fun l member => labels l (.tail _ member)

theorem invariant {P : S → Prop} (kept : ∀ {s l t}, P s → step s l t → P t) {s t : S}
    {ls : List L} (run : Run step s ls t) (start : P s) : P t := by
  refine run.invariant_on (P := P) (Q := fun _ => True) ?_ start fun _ _ => trivial
  intro s l t holds _ head
  exact kept holds head

/-- What every step preserves of the state and the labels so far. -/
theorem history {P : List L → S → Prop} {s t : S} {ls : List L} (run : Run step s ls t)
    (start : P [] s)
    (kept : ∀ {done t l u}, l ∈ ls → P done t → step t l u → P (done ++ [l]) u) : P ls t := by
  suffices onward : ∀ (done : List L) {s t : S} {rest : List L}, Run step s rest t →
      (∀ l ∈ rest, l ∈ ls) → P done s → P (done ++ rest) t from
    onward [] run (fun _ member => member) start
  intro done s t rest run
  induction run generalizing done with
  | nil s =>
      intro _ holds
      rwa [List.append_nil]
  | @cons s t u l rest head _ ih =>
      intro within holds
      have next := kept (within l (.head _)) holds head
      have onward := ih (done ++ [l]) (fun m member => within m (.tail _ member)) next
      rwa [List.append_assoc, List.singleton_append] at onward

/-- What a step says of its label. -/
theorem labels {Q : L → Prop} (each : ∀ {s l t}, step s l t → Q l) {s t : S} {ls : List L}
    (run : Run step s ls t) : ∀ l ∈ ls, Q l := by
  induction run with
  | nil s => exact fun _ member => absurd member List.not_mem_nil
  | cons head _ ih => exact List.forall_mem_cons.mpr ⟨each head, ih⟩

/-- A run of steps that, along an invariant and with such labels, are steps of another
kind. -/
theorem refine {step' : S → L → S → Prop} {P : S → Prop} {Q : L → Prop}
    (each : ∀ {s l t}, P s → Q l → step s l t → P t ∧ step' s l t) {s t : S} {ls : List L}
    (run : Run step s ls t) (start : P s) (labels : ∀ l ∈ ls, Q l) : Run step' s ls t := by
  induction run with
  | nil s => exact .nil s
  | cons head _ ih =>
      obtain ⟨next, step'⟩ := each start (labels _ (.head _)) head
      exact .cons step' (ih next fun l member => labels l (.tail _ member))

/-- A run up to some point, and from there. -/
theorem split {s t : S} {ls ms : List L} (run : Run step s (ls ++ ms) t) :
    ∃ u, Run step s ls u ∧ Run step u ms t := by
  induction ls generalizing s with
  | nil => exact ⟨s, .nil s, run⟩
  | cons l ls ih =>
      cases run with
      | cons head run =>
          obtain ⟨u, first, second⟩ := ih run
          exact ⟨u, .cons head first, second⟩

end Run

/-! ## Runs of a function -/

/-- Where `P` survives a step exactly if the step is `ok`, `P` holds all along a run exactly
if every step of it is. -/
theorem always_iff {next : S → L → S} {P : S → Prop} {ok : S → L → Prop}
    (exact : ∀ s l, P s → (P (next s l) ↔ ok s l)) {s : S} (start : P s) (ls : List L) :
    (∀ done rest, ls = done ++ rest → P (done.foldl next s)) ↔
      ∀ done l rest, ls = done ++ l :: rest → ok (done.foldl next s) l := by
  constructor
  · intro always done l rest split
    have after := always (done ++ [l]) rest (by simp [split])
    rw [List.foldl_append] at after
    exact (exact _ l (always done _ split)).mp after
  · intro every done
    induction done using List.reverseRecOn with
    | nil => exact fun _ _ => start
    | append_singleton done l ih =>
        intro rest split
        rw [List.append_assoc, List.singleton_append] at split
        rw [List.foldl_append]
        exact (exact _ l (ih _ split)).mpr (every done l rest split)

end CrewList.Theory
