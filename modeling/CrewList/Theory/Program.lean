/-
# CrewList.Theory.Program -- programs that make calls, and processes that run them

A `Program` is done, or makes a call and goes on with the reply.  It is a monad, so
code is written as its source has it, `ExceptT` being the `?` of a function that
returns a `Result`.

`inOrder` is the program of a sequence of calls: each is made if the one before was
let through, and the first error that is not tolerated is reported.  Processes that
run it (`ProgramStep`), after a setup of their own that may fail, do what the processes
of `Install` do (`Follows.run`), and what a process reports when it gives up says
which calls it has behind it (`Reported`).
-/
import CrewList.Theory.Refinement

namespace CrewList.Theory

set_option autoImplicit false

/-! ## Programs -/

/-- Done, or a call, and how it goes on with the reply; `R k` is what `k` is replied. -/
inductive Program (K : Type) (R : K → Type) (α : Type) where
  | done (a : α)
  | call (k : K) (next : R k → Program K R α)

/-- Calls that are replied nothing but their error, if there is one. -/
abbrev Fails {K : Type} (ε : Type) : K → Type := fun _ => Option ε

namespace Program

variable {K : Type} {R : K → Type} {α β ε ρ σ : Type}

def bind : Program K R α → (α → Program K R β) → Program K R β
  | .done a, f => f a
  | .call k next, f => .call k fun r => (next r).bind f

instance : Monad (Program K R) where
  pure := .done
  bind := bind

theorem bind_done (p : Program K R α) : p.bind .done = p := by
  induction p with
  | done a => rfl
  | call k next ih => exact congrArg (call k) (funext ih)

theorem bind_bind {γ : Type} (p : Program K R α) (f : α → Program K R β)
    (g : β → Program K R γ) : (p.bind f).bind g = p.bind fun a => (f a).bind g := by
  induction p with
  | done a => rfl
  | call k next ih => exact congrArg (call k) (funext ih)

instance : LawfulMonad (Program K R) := .mk' _ bind_done (fun _ _ => rfl) bind_bind

/-- One call, for its reply. -/
def request (k : K) : Program K R (R k) := .call k .done

section RunWith

variable {m : Type → Type} [Monad m]

/-- The program in a monad that makes its calls. -/
def runWith (exec : (k : K) → m (R k)) : Program K R α → m α
  | .done a => pure a
  | .call k next => do (next (← exec k)).runWith exec

variable [LawfulMonad m] {exec : (k : K) → m (R k)}

theorem runWith_bind (p : Program K R α) (f : α → Program K R β) :
    (p >>= f).runWith exec = p.runWith exec >>= fun a => (f a).runWith exec := by
  induction p with
  | done a =>
      show (f a).runWith exec = pure a >>= fun a => (f a).runWith exec
      rw [pure_bind]
  | call k next ih =>
      show exec k >>= (fun r => (next r >>= f).runWith exec) = _
      simp only [ih, runWith, bind_assoc]

theorem runWith_map (f : α → β) (p : Program K R α) :
    (f <$> p).runWith exec = f <$> p.runWith exec := by
  rw [map_eq_pure_bind, map_eq_pure_bind]
  exact runWith_bind p _

theorem runWith_request (k : K) : (request k).runWith exec = exec k := bind_pure _

/-- Calls made by programs of other calls. -/
theorem runWith_runWith {K' : Type} {R' : K' → Type} (inner : (k : K) → Program K' R' (R k))
    (exec : (k : K') → m (R' k)) (p : Program K R α) :
    (p.runWith inner).runWith exec = p.runWith fun k => (inner k).runWith exec := by
  induction p with
  | done a => rfl
  | call k next ih =>
      rw [runWith, runWith_bind]
      exact bind_congr ih

end RunWith

/-- A call whose error `?` returns as `wrap` has it. -/
def attempt (k : K) (wrap : ε → ρ) : ExceptT ρ (Program K (Fails ε)) Unit :=
  ExceptT.mk (.call k fun
    | none => .done (.ok ())
    | some e => .done (.error (wrap e)))

/-- `map_err`, or anyhow's `context`: the program with its error mapped. -/
def mapError (f : ε → ρ) (p : ExceptT ε (Program K R) α) : ExceptT ρ (Program K R) α :=
  ExceptT.mk (bind p.run fun outcome => .done (outcome.mapError f))

/-- After the reply to `k`: on, or the error is reported. -/
def goOn (tolerates : K → ε → Bool) (report : K → ε → ρ) (k : K)
    (rest : Program K (Fails ε) (Except ρ Unit)) :
    Option ε → Program K (Fails ε) (Except ρ Unit)
  | none => rest
  | some e => if tolerates k e then rest else .done (.error (report k e))

/-- The calls in order, as long as they are let through; the first error that is not
tolerated is reported. -/
def inOrder (tolerates : K → ε → Bool) (report : K → ε → ρ) :
    List K → Program K (Fails ε) (Except ρ Unit)
  | [] => .done (.ok ())
  | k :: ks => .call k (goOn tolerates report k (inOrder tolerates report ks))

section InOrder

variable {tolerates : K → ε → Bool} {report : K → ε → ρ}

/-- One call whose errors are all returned. -/
theorem attempt_eq {k : K} (returned : ∀ e, tolerates k e = false) :
    attempt k (report k) = ExceptT.mk (inOrder tolerates report [k]) := by
  show Program.call k _ = Program.call k _
  congr 1
  funext reply
  cases reply with
  | none => rfl
  | some e => simp [goOn, returned e]

/-- One sequence after the other. -/
theorem inOrder_append (ks ks' : List K) :
    (do
      ExceptT.mk (inOrder tolerates report ks)
      ExceptT.mk (inOrder tolerates report ks') :
        ExceptT ρ (Program K (Fails ε)) Unit) =
      ExceptT.mk (inOrder tolerates report (ks ++ ks')) := by
  induction ks with
  | nil => rfl
  | cons k ks ih =>
      show Program.call k _ = Program.call k _
      congr 1
      funext reply
      cases reply with
      | none => exact ih
      | some e =>
          by_cases tolerated : tolerates k e = true
          · simp only [goOn, tolerated, if_true]
            exact ih
          · simp only [goOn, tolerated, if_false, Bool.false_eq_true]
            rfl

/-- A sequence under a context. -/
theorem mapError_inOrder {ρ' : Type} (f : ρ → ρ') (ks : List K) :
    mapError f (ExceptT.mk (inOrder tolerates report ks)) =
      ExceptT.mk (inOrder tolerates (fun k e => f (report k e)) ks) := by
  induction ks with
  | nil => rfl
  | cons k ks ih =>
      show Program.call k _ = Program.call k _
      congr 1
      funext reply
      cases reply with
      | none => exact ih
      | some e =>
          by_cases tolerated : tolerates k e = true
          · simp only [goOn, tolerated, if_true]
            exact ih
          · simp only [goOn, tolerated, if_false, Bool.false_eq_true]
            rfl

/-- Only the reports of the calls there are matter. -/
theorem inOrder_congr {report' : K → ε → ρ} {ks : List K}
    (same : ∀ k ∈ ks, report k = report' k) :
    inOrder tolerates report ks = inOrder tolerates report' ks := by
  induction ks with
  | nil => rfl
  | cons k ks ih =>
      have next : goOn tolerates report k = goOn tolerates report' k := by
        funext rest reply
        cases reply with
        | none => rfl
        | some e => simp only [goOn, same k (.head _)]
      simp only [inOrder, next, ih fun j member => same j (.tail _ member)]

end InOrder

/-- What is left of a program whose calls all answer without an error. -/
def process : Program K (Fails ε) (Except ρ Unit) → Process K
  | .done (.ok ()) => .running []
  | .done (.error _) => .down
  | .call k next =>
      match (next none).process with
      | .running rest => .running (k :: rest)
      | .down => .down

theorem process_inOrder (tolerates : K → ε → Bool) (report : K → ε → ρ) (ks : List K) :
    (inOrder tolerates report ks).process = .running ks := by
  induction ks with
  | nil => rfl
  | cons k ks ih => simp only [inOrder, goOn, process, ih]

theorem process_goOn (m : Sequence K σ ε) (report : K → ε → ρ) (k : K) (ks : List K)
    (reply : Option ε) :
    (goOn m.tolerates report k (inOrder m.tolerates report ks) reply).process =
      if m.passes k reply then .running ks else .down := by
  cases reply with
  | none => exact process_inOrder ..
  | some e =>
      by_cases tolerated : m.tolerates k e = true
      · simp only [goOn, tolerated, if_true, Sequence.passes, Option.all_some]
        exact process_inOrder ..
      · simp [goOn, tolerated, Sequence.passes, process]

end Program

/-! ## Processes that run a program -/

inductive Thread (K : Type) (R : K → Type) (α : Type) where
  | down
  | running (p : Program K R α)

/-- The store and the processes, each with what is left of its program. -/
structure Threads (ι K : Type) (R : K → Type) (α σ : Type) where
  store : σ
  thread : ι → Thread K R α

/-- What a process does that `Install` knows, or its exit with a report. -/
inductive ProgramEvent (ι K ε ρ : Type) where
  | step (l : Label ι K ε)
  | exit (p : ι) (report : ρ)

section Threads

variable {ι K σ ε ρ : Type}

abbrev Thread.process : Thread K (Fails ε) (Except ρ Unit) → Process K
  | .down => .down
  | .running p => p.process

/-- The processes as `Install` has them; one that has failed is down. -/
def Threads.view (w : Threads ι K (Fails ε) (Except ρ Unit) σ) : World ι K σ where
  store := w.store
  process p := (w.thread p).process

/-- The step taken, if it is not an exit. -/
def ProgramEvent.taken : ProgramEvent ι K ε ρ → Option (Label ι K ε)
  | .step l => some l
  | .exit _ _ => none

/-- The label in `Install`'s terms.  Starting what fails to set up is no step there. -/
def ProgramEvent.label (setup : ι → Except ρ (K → ε → ρ)) :
    ProgramEvent ι K ε ρ → Option (Label ι K ε)
  | .step (.boot p) =>
      match setup p with
      | .ok _ => some (.boot p)
      | .error _ => none
  | .step l => some l
  | .exit _ _ => none

theorem ProgramEvent.eq_of_label_call {setup : ι → Except ρ (K → ε → ρ)}
    {e : ProgramEvent ι K ε ρ} {p : ι} {k : K} {fault : Fault ε} {reply : Option ε}
    (label : e.label setup = some (.call p k fault reply)) : e = .step (.call p k fault reply) := by
  cases e with
  | exit q r => cases label
  | step l =>
      cases l with
      | boot q =>
          rw [ProgramEvent.label] at label
          split at label <;> cases label
      | call q k' fault' reply' =>
          cases label
          rfl
      | die q => cases label

variable [DecidableEq ι]

def Threads.set {R : K → Type} {α : Type} (w : Threads ι K R α σ) (p : ι) (t : Thread K R α) :
    Threads ι K R α σ :=
  { w with thread := Function.update w.thread p t }

@[simp] theorem Threads.set_store {R : K → Type} {α : Type} (w : Threads ι K R α σ) (p : ι)
    (t : Thread K R α) : (w.set p t).store = w.store := rfl

@[simp] theorem Threads.set_thread_self {R : K → Type} {α : Type} (w : Threads ι K R α σ) (p : ι)
    (t : Thread K R α) : (w.set p t).thread p = t := Function.update_self ..

theorem Threads.set_thread_ne {R : K → Type} {α : Type} {w : Threads ι K R α σ} {p q : ι}
    (different : q ≠ p) (t : Thread K R α) : (w.set p t).thread q = w.thread q :=
  Function.update_of_ne different ..

theorem Threads.set_view (w : Threads ι K (Fails ε) (Except ρ Unit) σ) (p : ι)
    (t : Thread K (Fails ε) (Except ρ Unit)) : (w.set p t).view = w.view.set p t.process := by
  show World.mk _ _ = World.mk _ _
  congr 1
  exact Function.comp_update Thread.process w.thread p t

variable (m : Sequence K σ ε) (main : ι → Program K (Fails ε) (Except ρ Unit))

/-- One step.  Only a process that has not failed dies: one that has exits. -/
inductive ProgramStep : Threads ι K (Fails ε) (Except ρ Unit) σ → ProgramEvent ι K ε ρ →
    Threads ι K (Fails ε) (Except ρ Unit) σ → Prop where
  | boot {w : Threads ι K (Fails ε) (Except ρ Unit) σ} {p : ι} (down : w.thread p = .down) :
      ProgramStep w (.step (.boot p)) (w.set p (.running (main p)))
  | call {w : Threads ι K (Fails ε) (Except ρ Unit) σ} {p : ι} {k : K}
      {next : Option ε → Program K (Fails ε) (Except ρ Unit)} (fault : Fault ε)
      (up : w.thread p = .running (.call k next)) :
      ProgramStep w (.step (.call p k fault (m.exec k fault w.store).2))
        (Threads.set { w with store := (m.exec k fault w.store).1 } p
          (.running (next (m.exec k fault w.store).2)))
  | die {w : Threads ι K (Fails ε) (Except ρ Unit) σ} {p : ι}
      {q : Program K (Fails ε) (Except ρ Unit)} (up : w.thread p = .running q)
      (alive : ∀ r, q ≠ .done (.error r)) : ProgramStep w (.step (.die p)) (w.set p .down)
  | exit {w : Threads ι K (Fails ε) (Except ρ Unit) σ} {p : ι} {r : ρ}
      (failed : w.thread p = .running (.done (.error r))) :
      ProgramStep w (.exit p r) (w.set p .down)

end Threads

/-! ## The program of a sequence -/

section Sequences

variable {ι K σ ε ρ : Type} (m : Sequence K σ ε) (setup : ι → Except ρ (K → ε → ρ))
  (fact : K → σ → Prop)

/-- What process `p` runs: the sequence, with the reports its setup gave. -/
def mainOf (p : ι) : Program K (Fails ε) (Except ρ Unit) :=
  match setup p with
  | .error r => .done (.error r)
  | .ok report => .inOrder m.tolerates report m.calls

/-- The report of a process that gave up: its setup failed, or a call did, and the facts of
the calls before that hold. -/
def Reported (p : ι) (s : σ) (r : ρ) : Prop :=
  setup p = .error r ∨
    ∃ report done k rest e, setup p = .ok report ∧ m.calls = done ++ k :: rest ∧
      m.tolerates k e = false ∧ r = report k e ∧ ∀ j ∈ done, fact j s

/-- The process is down, or has the rest of the sequence before it and the facts of the
calls before that behind it, or has given up. -/
def Follows (p : ι) (w : Threads ι K (Fails ε) (Except ρ Unit) σ) : Prop :=
  w.thread p = .down ∨
    (∃ report done rest, setup p = .ok report ∧ m.calls = done ++ rest ∧
      w.thread p = .running (.inOrder m.tolerates report rest) ∧ ∀ j ∈ done, fact j w.store) ∨
    ∃ r, w.thread p = .running (.done (.error r)) ∧ Reported m setup fact p w.store r

variable {m setup fact}

theorem Reported.stable {p : ι} {s s' : σ} {r : ρ} (reported : Reported m setup fact p s r)
    (stable : ∀ j, fact j s → fact j s') : Reported m setup fact p s' r := by
  rcases reported with unset | ⟨report, done, k, rest, e, set, split, refused, same, held⟩
  · exact .inl unset
  · exact .inr ⟨report, done, k, rest, e, set, split, refused, same,
      fun j member => stable j (held j member)⟩

/-- What the others do to the store, and to themselves, leaves it so. -/
theorem Follows.other {p : ι} {w w' : Threads ι K (Fails ε) (Except ρ Unit) σ}
    (follows : Follows m setup fact p w) (same : w'.thread p = w.thread p)
    (stable : ∀ j, fact j w.store → fact j w'.store) : Follows m setup fact p w' := by
  rw [Follows, same]
  rcases follows with down | ⟨report, done, rest, set, split, up, held⟩ | ⟨r, failed, reported⟩
  · exact .inl down
  · exact .inr (.inl ⟨report, done, rest, set, split, up, fun j member => stable j (held j member)⟩)
  · exact .inr (.inr ⟨r, failed, reported.stable stable⟩)

/-- A process that is through its program has been set up, and has every fact behind it. -/
theorem Follows.finished {p : ι} {w : Threads ι K (Fails ε) (Except ρ Unit) σ}
    (follows : Follows m setup fact p w) (finished : w.thread p = .running (.done (.ok ()))) :
    (∃ report, setup p = .ok report) ∧ ∀ k ∈ m.calls, fact k w.store := by
  rcases follows with down | ⟨report, done, rest, set, split, up, held⟩ | ⟨r, failed, -⟩
  · rw [down] at finished
    cases finished
  · rw [up] at finished
    cases rest with
    | nil =>
        rw [List.append_nil] at split
        exact ⟨⟨report, set⟩, split ▸ held⟩
    | cons k rest => cases finished
  · rw [failed] at finished
    cases finished

/-- What is left of it is the rest of the sequence. -/
theorem Follows.rest {p : ι} {w : Threads ι K (Fails ε) (Except ρ Unit) σ} {rest : List K}
    (follows : Follows m setup fact p w) (up : w.view.process p = .running rest) :
    ∃ done, m.calls = done ++ rest := by
  change (w.thread p).process = _ at up
  rcases follows with down | ⟨report, done, rest', -, split, here, -⟩ | ⟨r, failed, -⟩
  · rw [down] at up
    cases up
  · rw [here, Thread.process, Program.process_inOrder] at up
    cases up
    exact ⟨done, split⟩
  · rw [failed] at up
    cases up

/-- It is through exactly if no call is left. -/
theorem Follows.finished_iff {p : ι} {w : Threads ι K (Fails ε) (Except ρ Unit) σ}
    (follows : Follows m setup fact p w) :
    w.thread p = .running (.done (.ok ())) ↔ w.view.process p = .running [] := by
  show _ ↔ (w.thread p).process = _
  rcases follows with down | ⟨report, done, rest, -, -, up, -⟩ | ⟨r, failed, -⟩
  · simp [down, Thread.process]
  · rw [up, Thread.process, Program.process_inOrder]
    cases rest with
    | nil => simp [Program.inOrder]
    | cons k rest => simp [Program.inOrder]
  · simp [failed, Thread.process, Program.process]

variable [DecidableEq ι]

/-- **One step.** -/
theorem Follows.step (facts : Establishes m (fun _ _ => True) fact) {p : ι}
    {w w' : Threads ι K (Fails ε) (Except ρ Unit) σ} {l : ProgramEvent ι K ε ρ}
    (follows : Follows m setup fact p w)
    (step : ProgramStep m (mainOf m setup) w l w') :
    Follows m setup fact p w' := by
  cases step with
  | @boot q down =>
      by_cases same : p = q
      · subst same
        cases set : setup p with
        | ok report =>
            refine .inr (.inl ⟨report, [], m.calls, set, rfl, ?_, nofun⟩)
            rw [Threads.set_thread_self, mainOf, set]
        | error r =>
            refine .inr (.inr ⟨r, ?_, .inl set⟩)
            rw [Threads.set_thread_self, mainOf, set]
      · exact follows.other (Threads.set_thread_ne same _) fun _ => id
  | @call q k next fault up =>
      have stable : ∀ j, fact j w.store → fact j (m.exec k fault w.store).1 :=
        fun j => facts.exec_stable
      by_cases same : p = q
      · subst same
        rcases follows with down | ⟨report, done, rest, set, split, here, held⟩ | ⟨r, failed, -⟩
        · rw [down] at up
          cases up
        · rw [here] at up
          cases rest with
          | nil => cases up
          | cons k' rest =>
              simp only [Program.inOrder, Thread.running.injEq, Program.call.injEq] at up
              obtain ⟨rfl, rfl⟩ := up
              have behind : ∀ j ∈ done, fact j (m.exec k' fault w.store).1 :=
                fun j member => stable j (held j member)
              have past : m.passes k' (m.exec k' fault w.store).2 = true →
                  ∀ j ∈ done ++ [k'], fact j (m.exec k' fault w.store).1 := by
                intro passes j member
                rcases List.mem_append.mp member with before | now
                · exact behind j before
                · rw [List.mem_singleton.mp now]
                  exact facts.passed k' fault w.store trivial passes
              have onward : m.calls = (done ++ [k']) ++ rest := by
                rw [split, List.append_assoc]
                rfl
              rw [Follows, Threads.set_thread_self, Threads.set_store]
              cases reply : (m.exec k' fault w.store).2 with
              | none =>
                  rw [reply] at past
                  exact .inr (.inl ⟨report, _, rest, set, onward, rfl, past rfl⟩)
              | some e =>
                  rw [reply] at past
                  by_cases tolerated : m.tolerates k' e = true
                  · refine .inr (.inl ⟨report, _, rest, set, onward, ?_, past tolerated⟩)
                    simp only [Program.goOn, tolerated, if_true]
                  · refine .inr (.inr ⟨report k' e, ?_, .inr ⟨report, done, k', rest, e, set, split,
                      ?_, rfl, behind⟩⟩)
                    · simp only [Program.goOn, tolerated, if_false, Bool.false_eq_true]
                    · simpa using tolerated
        · rw [failed] at up
          cases up
      · exact follows.other (Threads.set_thread_ne same _) stable
  | @die q _ up alive =>
      by_cases same : p = q
      · subst same
        exact .inl (Threads.set_thread_self ..)
      · exact follows.other (Threads.set_thread_ne same _) fun _ => id
  | @exit q r failed =>
      by_cases same : p = q
      · subst same
        exact .inl (Threads.set_thread_self ..)
      · exact follows.other (Threads.set_thread_ne same _) fun _ => id

/-- Setting a thread to one that is as down as it was changes nothing in the view. -/
theorem Threads.set_view_down {w : Threads ι K (Fails ε) (Except ρ Unit) σ} {p : ι}
    {t : Thread K (Fails ε) (Except ρ Unit)} (before : (w.thread p).process = .down)
    (after : t.process = .down) : (w.set p t).view = w.view := by
  rw [Threads.set_view, after]
  show World.mk _ _ = World.mk _ _
  congr 1
  exact Function.update_eq_self_iff.mpr before.symm

/-- A step of the programs is the same step of the sequence, or changes nothing there. -/
theorem Follows.view_step {w w' : Threads ι K (Fails ε) (Except ρ Unit) σ}
    {l : ProgramEvent ι K ε ρ}
    (follows : ∀ p, Follows m setup fact p w)
    (step : ProgramStep m (mainOf m setup) w l w') :
    Seen (Step m) w.view (l.label setup) w'.view := by
  cases step with
  | @boot q down =>
      have idle : w.view.process q = .down := by
        show (w.thread q).process = _
        rw [down]
      cases set : setup q with
      | ok report =>
          rw [ProgramEvent.label, set]
          show Step m w.view (.boot q) (w.set q _).view
          rw [Threads.set_view, Thread.process, mainOf, set, Program.process_inOrder]
          exact .boot idle
      | error r =>
          rw [ProgramEvent.label, set]
          refine Threads.set_view_down idle ?_
          rw [Thread.process, mainOf, set, Program.process]
  | @call q k next fault up =>
      rcases follows q with down | ⟨report, done, rest, set, split, here, -⟩ | ⟨r, failed, -⟩
      · rw [down] at up
        cases up
      · rw [here] at up
        cases rest with
        | nil => cases up
        | cons k' rest =>
            simp only [Program.inOrder, Thread.running.injEq, Program.call.injEq] at up
            obtain ⟨rfl, rfl⟩ := up
            have before : w.view.process q = .running (k' :: rest) := by
              show (w.thread q).process = _
              rw [here]
              exact Program.process_inOrder ..
            have called := Step.call (m := m) fault before
            show Step m w.view (.call q k' fault _) (Threads.set _ q _).view
            rw [Threads.set_view]
            rw [Thread.process, Program.process_goOn]
            exact called
      · rw [failed] at up
        cases up
  | @die q left up alive =>
      have running : ∃ rest, w.view.process q = .running rest := by
        show ∃ rest, (w.thread q).process = .running rest
        rcases follows q with down | ⟨report, done, rest, -, -, here, -⟩ | ⟨r, failed, -⟩
        · rw [down] at up
          cases up
        · rw [here]
          exact ⟨rest, Program.process_inOrder ..⟩
        · rw [failed] at up
          cases up
          exact absurd rfl (alive r)
      obtain ⟨rest, running⟩ := running
      show Step m w.view (.die q) (w.set q .down).view
      rw [Threads.set_view]
      exact .die running
  | @exit q r failed =>
      show (w.set q .down).view = w.view
      refine Threads.set_view_down ?_ rfl
      rw [failed]
      rfl

/-- **Processes that run the program of a sequence**, each with a setup and reports of its
own, seen as processes of the sequence. -/
theorem Follows.run (facts : Establishes m (fun _ _ => True) fact)
    {w w' : Threads ι K (Fails ε) (Except ρ Unit) σ} {ls : List (ProgramEvent ι K ε ρ)}
    (down : ∀ p, w.thread p = .down)
    (run : Run (ProgramStep m (mainOf m setup)) w ls w') :
    (∀ p, Follows m setup fact p w') ∧
      Run (Step m) w.view (ls.filterMap (ProgramEvent.label setup)) w'.view := by
  refine Run.view (P := fun w => ∀ p, Follows m setup fact p w) Threads.view
    (ProgramEvent.label setup) ?_ run fun p => .inl (down p)
  intro w l w' follows step
  exact ⟨fun p => (follows p).step facts step, Follows.view_step follows step⟩

/-! ### From the sequence to the programs -/

/-- The label says what a step does. -/
theorem Step.deterministic {w u v : World ι K σ} {l : Label ι K ε} (first : Step m w l u)
    (second : Step m w l v) : u = v := by
  cases first with
  | boot down =>
      cases second
      rfl
  | @call p k rest fault next =>
      generalize reply : (m.exec k fault w.store).2 = r at second
      cases second with
      | @call _ _ rest' _ next' =>
          rw [next] at next'
          cases next'
          rfl
  | die up =>
      cases second
      rfl

/-- A step of the programs leaves what the step of its label leaves. -/
theorem Follows.view_eq {w w' : Threads ι K (Fails ε) (Except ρ Unit) σ} {v : World ι K σ}
    {e : ProgramEvent ι K ε ρ} {l : Label ι K ε} (follows : ∀ p, Follows m setup fact p w)
    (step : ProgramStep m (mainOf m setup) w e w') (label : e.label setup = some l)
    (abstract : Step m w.view l v) : w'.view = v := by
  have seen := Follows.view_step follows step
  rw [label] at seen
  exact Step.deterministic seen abstract

/-- What the sequence does next, the programs can do, once those that have failed are out
of the way; if the setup of one that boots succeeds. -/
theorem Follows.lift_step (facts : Establishes m (fun _ _ => True) fact)
    {w : Threads ι K (Fails ε) (Except ρ Unit) σ} {v : World ι K σ} {l : Label ι K ε}
    (follows : ∀ p, Follows m setup fact p w)
    (ready : ∀ p, l = .boot p → ∃ report, setup p = .ok report) (step : Step m w.view l v) :
    ∃ es w', Run (ProgramStep m (mainOf m setup)) w es w' ∧
      es.filterMap ProgramEvent.taken = [l] ∧ w'.view = v := by
  have abstract := step
  cases step with
  | @boot q idle =>
      obtain ⟨report, set⟩ := ready q rfl
      have label : ProgramEvent.label setup (.step (.boot q) : ProgramEvent ι K ε ρ) =
          some (.boot q) := by
        rw [ProgramEvent.label, set]
      rcases follows q with down | ⟨_, done, rest, -, -, here, -⟩ | ⟨r, failed, -⟩
      · have booted : ProgramStep m (mainOf m setup) w (.step (.boot q)) _ := .boot down
        refine ⟨[.step (.boot q)], _, .cons booted (.nil _), rfl, ?_⟩
        exact Follows.view_eq follows booted label abstract
      · have up : w.view.process q = .running rest := by
          show (w.thread q).process = _
          rw [here]
          exact Program.process_inOrder ..
        rw [up] at idle
        cases idle
      · -- the failed process exits first, which the view does not see
        have exited : ProgramStep m (mainOf m setup) w (.exit q r) _ := .exit failed
        have same : (w.set q .down).view = w.view := Follows.view_step follows exited
        have booted : ProgramStep m (mainOf m setup) (w.set q .down) (.step (.boot q)) _ :=
          .boot (Threads.set_thread_self ..)
        refine ⟨[.exit q r, .step (.boot q)], _, .cons exited (.cons booted (.nil _)), rfl, ?_⟩
        have after : ∀ p, Follows m setup fact p (w.set q .down) := fun p =>
          (follows p).step facts exited
        rw [← same] at abstract ⊢
        exact Follows.view_eq after booted label abstract
  | @call q k rest fault next =>
      have here : ∃ next, w.thread q = .running (.call k next) := by
        change (w.thread q).process = _ at next
        rcases follows q with down | ⟨report, done, rest', -, -, here, -⟩ | ⟨r, failed, -⟩
        · rw [down] at next
          cases next
        · rw [here, Thread.process, Program.process_inOrder] at next
          cases next
          exact ⟨_, here⟩
        · rw [failed] at next
          cases next
      obtain ⟨onward, here⟩ := here
      have called : ProgramStep m (mainOf m setup) w (.step (.call q k fault _)) _ :=
        .call fault here
      refine ⟨_, _, .cons called (.nil _), rfl, ?_⟩
      exact Follows.view_eq follows called rfl abstract
  | @die q rest up =>
      have here : ∃ left, w.thread q = .running left ∧ ∀ r, left ≠ .done (.error r) := by
        change (w.thread q).process = _ at up
        cases thread : w.thread q with
        | down =>
            rw [thread] at up
            cases up
        | running left =>
            refine ⟨left, rfl, ?_⟩
            rintro r rfl
            rw [thread] at up
            cases up
      obtain ⟨left, here, alive⟩ := here
      have died : ProgramStep m (mainOf m setup) w (.step (.die q)) _ := .die here alive
      refine ⟨_, _, .cons died (.nil _), rfl, ?_⟩
      exact Follows.view_eq follows died rfl abstract

/-- **Whole runs**, from the sequence to the programs. -/
theorem Follows.lift (facts : Establishes m (fun _ _ => True) fact)
    {w : Threads ι K (Fails ε) (Except ρ Unit) σ} {v : World ι K σ} {ls : List (Label ι K ε)}
    (follows : ∀ p, Follows m setup fact p w)
    (ready : ∀ p, .boot p ∈ ls → ∃ report, setup p = .ok report) (run : Run (Step m) w.view ls v) :
    ∃ es w', Run (ProgramStep m (mainOf m setup)) w es w' ∧
      es.filterMap ProgramEvent.taken = ls ∧ w'.view = v ∧ ∀ p, Follows m setup fact p w' := by
  induction ls generalizing w with
  | nil =>
      cases run
      exact ⟨[], w, .nil w, rfl, rfl, follows⟩
  | cons l ls ih =>
      cases run with
      | cons head run =>
          have here : ∀ p, l = .boot p → ∃ report, setup p = .ok report := by
            rintro p rfl
            exact ready p (.head _)
          obtain ⟨es, w', first, labels, rfl⟩ := Follows.lift_step facts follows here head
          have next : ∀ p, Follows m setup fact p w' := by
            refine Run.invariant (P := fun w => ∀ p, Follows m setup fact p w) ?_ first follows
            exact fun follows step p => (follows p).step facts step
          obtain ⟨es', w'', onward, labels', final, follows''⟩ :=
            ih next (fun p member => ready p (.tail _ member)) run
          refine ⟨es ++ es', w'', first.append onward, ?_, final, follows''⟩
          rw [List.filterMap_append, labels, labels']
          rfl

end Sequences

end CrewList.Theory
