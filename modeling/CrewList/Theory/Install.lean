/-
# CrewList.Theory.Install -- processes installing into one shared store

A `Sequence` is a list of calls against a store, with what each call does to the
store and answers, and the errors the caller carries on after.  Any number of
processes run it concurrently against one store.  A call may fail before or after
it took effect, a process may die between two calls, and a process that meets an
error it does not tolerate goes down.

The store carries no record of who installed what, so safety is a statement about
each process's remaining calls:

* `Establishes`: a call that lets its process go on leaves a fact in the store, and
  no call destroys a fact;
* `Progress`: the facts of the calls a process has behind it hold.  It is kept by
  every step of every process (`Progress.step`), so a process with no call left has
  every fact (`Progress.finished`).

Convergence counts a process's own calls: a boot all of whose calls are let
through is past exactly as many calls as it made (`running_drop`), and without
faults every call is let through (`faultless_passes`, `exists_solo_run`).
-/
import CrewList.Theory.Runs

namespace CrewList.Theory

set_option autoImplicit false

/-! ## Sequences of calls -/

/-- The calls of one process, and the store they act on. -/
structure Sequence (K σ ε : Type) where
  calls : List K
  run : K → σ → σ × Option ε
  tolerates : K → ε → Bool

/-- What can go wrong with a call besides its own answer. -/
inductive Fault (ε : Type) where
  | none
  | before (error : ε)
  | after (error : ε)

inductive Process (K : Type) where
  | down
  | running (rest : List K)

structure World (ι K σ : Type) where
  store : σ
  process : ι → Process K

inductive Label (ι K ε : Type) where
  | boot (p : ι)
  | call (p : ι) (k : K) (fault : Fault ε) (reply : Option ε)
  | die (p : ι)

section Steps

variable {ι K σ ε : Type}

/-- A call under a fault: its effect on the store, and the error its caller sees. -/
def Sequence.exec (m : Sequence K σ ε) (k : K) : Fault ε → σ → σ × Option ε
  | .none, s => m.run k s
  | .before error, s => (s, some error)
  | .after error, s => ((m.run k s).1, some error)

/-- The caller goes on after this reply. -/
def Sequence.passes (m : Sequence K σ ε) (k : K) (reply : Option ε) : Bool :=
  reply.all (m.tolerates k)

def Label.isCallOf [DecidableEq ι] (p : ι) : Label ι K ε → Bool
  | .call q .. => q = p
  | _ => false

def World.put (w : World ι K σ) (s : σ) : World ι K σ := { w with store := s }

@[simp] theorem World.put_store (w : World ι K σ) (s : σ) : (w.put s).store = s := rfl

@[simp] theorem World.put_process (w : World ι K σ) (s : σ) :
    (w.put s).process = w.process := rfl

variable [DecidableEq ι]

def World.set (w : World ι K σ) (p : ι) (process : Process K) : World ι K σ :=
  { w with process := Function.update w.process p process }

@[simp] theorem World.set_store (w : World ι K σ) (p : ι) (process : Process K) :
    (w.set p process).store = w.store := rfl

@[simp] theorem World.set_process_self (w : World ι K σ) (p : ι) (process : Process K) :
    (w.set p process).process p = process := Function.update_self ..

theorem World.set_process_ne {w : World ι K σ} {p q : ι} (different : q ≠ p)
    (process : Process K) : (w.set p process).process q = w.process q :=
  Function.update_of_ne different ..

inductive Step (m : Sequence K σ ε) : World ι K σ → Label ι K ε → World ι K σ → Prop where
  | boot {w : World ι K σ} {p : ι} (down : w.process p = .down) :
      Step m w (.boot p) (w.set p (.running m.calls))
  | call {w : World ι K σ} {p : ι} {k : K} {rest : List K} (fault : Fault ε)
      (next : w.process p = .running (k :: rest)) :
      Step m w (.call p k fault (m.exec k fault w.store).2)
        ((w.put (m.exec k fault w.store).1).set p
          (if m.passes k (m.exec k fault w.store).2 then .running rest else .down))
  | die {w : World ι K σ} {p : ι} {rest : List K} (up : w.process p = .running rest) :
      Step m w (.die p) (w.set p .down)

/-- A process that is through was so before, or has made its last call. -/
theorem Step.finished {m : Sequence K σ ε} {w w' : World ι K σ} {l : Label ι K ε} {p : ι}
    (step : Step m w l w') (nonempty : m.calls ≠ []) (finished : w'.process p = .running []) :
    w.process p = .running [] ∨ ∃ k fault, w.process p = .running [k] ∧
      l = .call p k fault (m.exec k fault w.store).2 ∧
      m.passes k (m.exec k fault w.store).2 = true := by
  cases step with
  | @boot q down =>
      by_cases same : p = q
      · subst same
        rw [World.set_process_self] at finished
        cases calls : m.calls with
        | nil => exact absurd calls nonempty
        | cons k rest =>
            rw [calls] at finished
            cases finished
      · rw [World.set_process_ne same] at finished
        exact .inl finished
  | @call q k rest fault next =>
      by_cases same : p = q
      · subst same
        rw [World.set_process_self] at finished
        split at finished
        · rename_i passes
          cases finished
          exact .inr ⟨k, fault, next, rfl, passes⟩
        · cases finished
      · rw [World.set_process_ne same] at finished
        exact .inl finished
  | @die q rest up =>
      by_cases same : p = q
      · subst same
        rw [World.set_process_self] at finished
        cases finished
      · rw [World.set_process_ne same] at finished
        exact .inl finished

end Steps

/-! ## Facts and progress -/

section Facts

variable {ι K σ ε : Type}

/-- Under the circumstances `Q`, a call its caller goes on after leaves its fact, and
no call undoes a fact. -/
structure Establishes (m : Sequence K σ ε) (Q : K → Fault ε → Prop) (fact : K → σ → Prop) :
    Prop where
  passed : ∀ k fault s, Q k fault → m.passes k (m.exec k fault s).2 = true →
    fact k (m.exec k fault s).1
  stable : ∀ j k s, fact j s → fact j (m.run k s).1

variable {m : Sequence K σ ε} {Q : K → Fault ε → Prop} {fact : K → σ → Prop}

theorem Establishes.exec_stable (facts : Establishes m Q fact) {j k : K} {fault : Fault ε} {s : σ}
    (holds : fact j s) : fact j (m.exec k fault s).1 := by
  cases fault with
  | none => exact facts.stable j k s holds
  | before error => exact holds
  | after error => exact facts.stable j k s holds

/-- The facts of the calls process `p` has behind it hold. -/
def Progress (m : Sequence K σ ε) (fact : K → σ → Prop) (p : ι) (w : World ι K σ) : Prop :=
  ∀ rest, w.process p = .running rest →
    ∃ done, m.calls = done ++ rest ∧ ∀ k ∈ done, fact k w.store

theorem Progress.down {p : ι} {w : World ι K σ} (down : w.process p = .down) :
    Progress m fact p w := by
  intro rest running
  rw [down] at running
  cases running

theorem Progress.finished {p : ι} {w : World ι K σ} (progress : Progress m fact p w)
    (finished : w.process p = .running []) {k : K} (member : k ∈ m.calls) : fact k w.store := by
  obtain ⟨done, split, facts⟩ := progress [] finished
  rw [split, List.append_nil] at member
  exact facts k member

variable [DecidableEq ι]

/-- **One step.**  Whoever takes it, the facts behind `p` stay, and a call of `p`'s
own adds its fact. -/
theorem Progress.step (facts : Establishes m Q fact) {p : ι} {w w' : World ι K σ}
    {l : Label ι K ε} (progress : Progress m fact p w) (step : Step m w l w')
    (circumstances : ∀ k fault reply, l = .call p k fault reply → Q k fault) :
    Progress m fact p w' := by
  intro rest' running
  cases step with
  | @boot q down =>
      by_cases same : p = q
      · subst same
        rw [World.set_process_self] at running
        cases running
        exact ⟨[], rfl, nofun⟩
      · rw [World.set_process_ne same] at running
        exact progress rest' running
  | @call q k rest fault next =>
      by_cases same : p = q
      · subst same
        rw [World.set_process_self] at running
        split at running
        · rename_i passes
          cases running
          obtain ⟨done, split, held⟩ := progress _ next
          refine ⟨done ++ [k], by rw [split, List.append_assoc]; rfl, ?_⟩
          intro j member
          rcases List.mem_append.mp member with before | here
          · exact facts.exec_stable (held j before)
          · rw [List.mem_singleton.mp here]
            exact facts.passed k fault w.store (circumstances k fault _ rfl) passes
        · cases running
      · rw [World.set_process_ne same] at running
        obtain ⟨done, split, held⟩ := progress rest' running
        exact ⟨done, split, fun j member => facts.exec_stable (held j member)⟩
  | @die q rest up =>
      by_cases same : p = q
      · subst same
        rw [World.set_process_self] at running
        cases running
      · rw [World.set_process_ne same] at running
        exact progress rest' running

/-- **Whole runs.** -/
theorem Progress.run (facts : Establishes m Q fact) {p : ι} {w w' : World ι K σ}
    {ls : List (Label ι K ε)} (run : Run (Step m) w ls w') (start : Progress m fact p w)
    (circumstances : ∀ l ∈ ls, ∀ k fault reply, l = .call p k fault reply → Q k fault) :
    Progress m fact p w' :=
  run.invariant_on (fun progress here step => progress.step facts step here) start circumstances

/-- A fact survives every run. -/
theorem Establishes.run_stable (facts : Establishes m Q fact) {k : K} {w w' : World ι K σ}
    {ls : List (Label ι K ε)} (run : Run (Step m) w ls w') (start : fact k w.store) :
    fact k w'.store := by
  refine run.invariant (P := fun w => fact k w.store) ?_ start
  intro w l w' holds step
  cases step with
  | boot down => exact holds
  | call fault next => exact facts.exec_stable holds
  | die up => exact holds

end Facts

/-! ## Convergence -/

section Convergence

variable {ι K σ ε : Type} [DecidableEq ι] {m : Sequence K σ ε}

/-- The label is not a setback for `p`: not its death, nor a call of its own that it
does not go on after. -/
def Smooth (m : Sequence K σ ε) (p : ι) (l : Label ι K ε) : Prop :=
  l ≠ .die p ∧ ∀ k fault reply, l = .call p k fault reply → m.passes k reply = true

/-- **A boot without setbacks** is past as many calls as it made, whatever the other
processes do. -/
theorem running_drop {p : ι} {w w' : World ι K σ} {ls : List (Label ι K ε)}
    (run : Run (Step m) w (.boot p :: ls) w') (smooth : ∀ l ∈ ls, Smooth m p l) :
    w'.process p = .running (m.calls.drop (ls.countP (Label.isCallOf p))) := by
  cases run with
  | cons boot run =>
      refine run.history (P := fun done w =>
        w.process p = .running (m.calls.drop (done.countP (Label.isCallOf p)))) ?_ ?_
      · cases boot with
        | boot down => exact World.set_process_self ..
      · intro done t l u member holds step
        rw [List.countP_append, List.countP_singleton]
        cases step with
        | @boot q down =>
            have other : p ≠ q := by
              rintro rfl
              rw [holds] at down
              cases down
            rw [World.set_process_ne other]
            exact holds
        | @call q k rest fault next =>
            by_cases same : p = q
            · subst same
              have passes := (smooth _ member).2 k fault _ rfl
              have tail : m.calls.drop (done.countP (Label.isCallOf p) + 1) = rest := by
                have here := holds.symm.trans next
                simp only [Process.running.injEq] at here
                rw [← List.tail_drop, here, List.tail_cons]
              rw [World.set_process_self, if_pos passes, ← tail]
              simp [Label.isCallOf]
            · rw [World.set_process_ne same]
              simpa [Label.isCallOf, Ne.symm same] using holds
        | @die q rest up =>
            have other : p ≠ q := by
              rintro rfl
              exact (smooth _ member).1 rfl
            rw [World.set_process_ne other]
            exact holds

/-- Without faults a call is let through once the calls before it were made without
faults, as `clean` records. -/
structure Clean (m : Sequence K σ ε) (clean : K → σ → Prop) : Prop where
  establishes : Establishes m (fun _ fault => fault = .none) clean
  passes : ∀ {done k rest s}, m.calls = done ++ k :: rest → (∀ j ∈ done, clean j s) →
    m.passes k (m.run k s).2 = true

variable {clean : K → σ → Prop}

/-- A boot whose calls meet no fault meets no error either, whatever the other
processes do. -/
theorem faultless_passes (sound : Clean m clean) {p : ι} {w w' : World ι K σ}
    {ls : List (Label ι K ε)} (down : w.process p = .down) (run : Run (Step m) w ls w')
    (faultless : ∀ l ∈ ls, ∀ k fault reply, l = .call p k fault reply → fault = .none) :
    ∀ l ∈ ls, ∀ k fault reply, l = .call p k fault reply → m.passes k reply = true := by
  suffices both : Progress m clean p w' ∧
      ∀ l ∈ ls, ∀ k fault reply, l = .call p k fault reply → m.passes k reply = true from both.2
  refine run.history (P := fun done w => Progress m clean p w ∧
    ∀ l ∈ done, ∀ k fault reply, l = .call p k fault reply → m.passes k reply = true)
    ⟨.down down, nofun⟩ ?_
  rintro done t l u member ⟨progress, passed⟩ step
  refine ⟨progress.step sound.establishes step (faultless l member), ?_⟩
  intro l' inHistory k fault reply own
  rcases List.mem_append.mp inHistory with before | here
  · exact passed l' before k fault reply own
  · rw [List.mem_singleton.mp here] at own
    have clear := faultless l member k fault reply own
    subst own clear
    cases step with
    | call _ next =>
        obtain ⟨done, split, held⟩ := progress _ next
        exact sound.passes split held

/-- A process that is up can finish alone, without faults. -/
theorem exists_finish (sound : Clean m clean) {p : ι} {rest : List K} {w : World ι K σ}
    (up : w.process p = .running rest) (progress : Progress m clean p w) :
    ∃ ls w', Run (Step m) w ls w' ∧ w'.process p = .running [] ∧
      ∀ l ∈ ls, ∃ k reply, l = .call p k .none reply := by
  induction rest generalizing w with
  | nil => exact ⟨[], w, .nil w, up, nofun⟩
  | cons k rest ih =>
      obtain ⟨done, split, held⟩ := progress _ up
      have passes : m.passes k (m.exec k .none w.store).2 = true := sound.passes split held
      have step := Step.call (m := m) .none up
      rw [if_pos passes] at step
      have next := progress.step sound.establishes step (by
        rintro k fault reply same
        cases same
        rfl)
      obtain ⟨ls, w', run, finished, own⟩ := ih (World.set_process_self ..) next
      refine ⟨_, w', .cons step run, finished, ?_⟩
      intro l member
      rcases List.mem_cons.mp member with rfl | later
      · exact ⟨k, _, rfl⟩
      · exact own l later

/-- **A process can boot alone from any state of the store.** -/
theorem exists_solo_run (sound : Clean m clean) {p : ι} {w : World ι K σ}
    (down : w.process p = .down) :
    ∃ ls w', Run (Step m) w (.boot p :: ls) w' ∧ w'.process p = .running [] ∧
      ∀ l ∈ ls, ∃ k reply, l = .call p k .none reply := by
  have boot := Step.boot (m := m) down
  have start : Progress m clean p w := .down down
  have progress := start.step sound.establishes boot nofun
  obtain ⟨ls, w', run, finished, own⟩ :=
    exists_finish sound (World.set_process_self ..) progress
  exact ⟨ls, w', .cons boot run, finished, own⟩

end Convergence

end CrewList.Theory
