/-
# CrewList.Theory.Refinement -- the runs of one system as runs of another

A view maps the states of a system to those of a more abstract one, and its labels
to abstract labels, or to none.  If every step is the abstract step of its label, or
for a label without one changes nothing in the view, then every run is an abstract
run (`Run.view`).

Two sequences of calls need to be compared call by call only (`Refines`): then the
worlds that run them are compared step by step (`Refines.step`), and what the abstract
processes can do the concrete ones can do too (`Refines.lift`).
-/
import CrewList.Theory.Install

namespace CrewList.Theory

set_option autoImplicit false

/-! ## Steps and runs -/

section Views

variable {S S' L L' : Type} {step : S → L → S → Prop} {step' : S' → L' → S' → Prop}

/-- How a step looks in the view: the abstract step of its label, or nothing. -/
def Seen (step' : S' → L' → S' → Prop) (s : S') : Option L' → S' → Prop
  | some l, t => step' s l t
  | none, t => t = s

/-- **A run, seen in the view**, along an invariant the steps keep. -/
theorem Run.view (view : S → S') (seen : L → Option L') {P : S → Prop}
    (each : ∀ {s l t}, P s → step s l t → P t ∧ Seen step' (view s) (seen l) (view t))
    {s t : S} {ls : List L} (run : Run step s ls t) (start : P s) :
    P t ∧ Run step' (view s) (ls.filterMap seen) (view t) := by
  induction run with
  | nil s => exact ⟨start, .nil _⟩
  | @cons s t u l ls head _ ih =>
      obtain ⟨next, looks⟩ := each start head
      obtain ⟨final, onward⟩ := ih next
      refine ⟨final, ?_⟩
      cases label : seen l with
      | none =>
          rw [label] at looks
          rw [List.filterMap_cons_none label, ← show view t = view s from looks]
          exact onward
      | some l' =>
          rw [label] at looks
          rw [List.filterMap_cons_some label]
          exact .cons looks onward

end Views

/-! ## Sequences of calls -/

section Sequences

variable {ι K σ τ ε : Type}

/-- The same processes over the view of the store. -/
def World.map (view : σ → τ) (w : World ι K σ) : World ι K τ where
  store := view w.store
  process := w.process

@[simp] theorem World.map_store (view : σ → τ) (w : World ι K σ) :
    (w.map view).store = view w.store := rfl

/-- The calls of `m`, in the view, are those of `n`: on a store that satisfies `P` they
answer the same and leave the view of what they leave, which satisfies `P` again. -/
structure Refines (m : Sequence K σ ε) (n : Sequence K τ ε) (view : σ → τ) (P : σ → Prop) :
    Prop where
  calls : m.calls = n.calls
  tolerates : m.tolerates = n.tolerates
  run : ∀ k s, P s → n.run k (view s) = (view (m.run k s).1, (m.run k s).2)
  keeps : ∀ k s, P s → P (m.run k s).1

variable {m : Sequence K σ ε} {n : Sequence K τ ε} {view : σ → τ} {P : σ → Prop}

theorem Refines.exec (refines : Refines m n view P) (k : K) (fault : Fault ε) {s : σ}
    (holds : P s) :
    n.exec k fault (view s) = (view (m.exec k fault s).1, (m.exec k fault s).2) ∧
      P (m.exec k fault s).1 := by
  cases fault with
  | none => exact ⟨refines.run k s holds, refines.keeps k s holds⟩
  | before error => exact ⟨rfl, holds⟩
  | after error =>
      refine ⟨?_, refines.keeps k s holds⟩
      show ((n.run k (view s)).1, some error) = _
      rw [refines.run k s holds]
      rfl

theorem Refines.passes (refines : Refines m n view P) (k : K) (reply : Option ε) :
    n.passes k reply = m.passes k reply := by
  rw [Sequence.passes, Sequence.passes, refines.tolerates]

variable [DecidableEq ι]

/-- **One step**, whoever takes it. -/
theorem Refines.step (refines : Refines m n view P) {w w' : World ι K σ} {l : Label ι K ε}
    (holds : P w.store) (step : Step m w l w') :
    P w'.store ∧ Step n (w.map view) l (w'.map view) := by
  cases step with
  | boot down =>
      refine ⟨holds, ?_⟩
      have booted := Step.boot (m := n) (w := w.map view) down
      rw [← refines.calls] at booted
      exact booted
  | @call p k rest fault next =>
      obtain ⟨same, kept⟩ := refines.exec k fault holds
      refine ⟨kept, ?_⟩
      have called := Step.call (m := n) (w := w.map view) fault next
      rw [refines.passes, World.map_store, same] at called
      exact called
  | die up => exact ⟨holds, Step.die (w := w.map view) up⟩

/-- What the abstract processes do next, the concrete ones can do. -/
theorem Refines.lift_step (refines : Refines m n view P) {w : World ι K σ} {v : World ι K τ}
    {l : Label ι K ε} (holds : P w.store) (step : Step n (w.map view) l v) :
    ∃ w', Step m w l w' ∧ w'.map view = v := by
  cases step with
  | boot down =>
      refine ⟨_, .boot down, ?_⟩
      rw [refines.calls]
      rfl
  | @call p k rest fault next =>
      have same := (refines.exec k fault holds).1
      rw [refines.passes, World.map_store, same]
      exact ⟨_, .call fault next, rfl⟩
  | die up => exact ⟨_, .die up, rfl⟩

/-- **Whole runs**, from the abstract processes to the concrete ones. -/
theorem Refines.lift (refines : Refines m n view P) {w : World ι K σ} {v : World ι K τ}
    {ls : List (Label ι K ε)} (holds : P w.store) (run : Run (Step n) (w.map view) ls v) :
    ∃ w', Run (Step m) w ls w' ∧ w'.map view = v ∧ P w'.store := by
  induction ls generalizing w with
  | nil =>
      cases run
      exact ⟨w, .nil w, rfl, holds⟩
  | cons l ls ih =>
      cases run with
      | cons head run =>
          obtain ⟨w', step, rfl⟩ := refines.lift_step holds head
          obtain ⟨w'', onward, seen, final⟩ := ih (refines.step holds step).1 run
          exact ⟨w'', .cons step onward, seen, final⟩

end Sequences

end CrewList.Theory
