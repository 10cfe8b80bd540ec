/-
# CrewList.Server.Shutdown -- when `shutdown_signal` completes

`shutdown_signal` selects over two async blocks, one for each signal.  A block
installs its handler when it is first polled and then waits for the signal.  The
model is the sequence of single polls of either block and of signals arriving, in
any order, with the outcome of the installation given by the poll that attempts it.

The two blocks differ in one place: what becomes of an installation that fails.
`terminate` then waits forever, rather than shut the server down for no reason;
`interrupt` drops the error and resolves.  `shutdown_exact` is that this is the only
way the server shuts down unasked.  It is told by the events: while the future waits,
they show what each branch has done (`unpolled_iff`, `installed_iff_installs`).
-/
import Mathlib

namespace CrewList.Server

set_option autoImplicit false

inductive Signal where
  | sigint | sigterm
  deriving DecidableEq, Repr

/-- One async block of the `select!`: not polled yet, waiting with its handler
installed (`pending` once a signal has come), or past a failed installation. -/
inductive Branch where
  | unpolled
  | listening (pending : Bool)
  | failed
  deriving DecidableEq, Repr

/-! ## Polling -/

/-- One poll of a block that waits for a signal, and whether the block resolves.
`resolves` is what it does about a failed installation; having resolved so it is not
polled again. -/
def awaitSignal (resolves installs : Bool) : Branch → Branch × Bool
  | .unpolled => if installs then (.listening false, false) else (.failed, resolves)
  | .listening pending => (.listening false, pending)
  | .failed => (.failed, false)

/-- `let _ = tokio::signal::ctrl_c().await` -/
def interrupt : Bool → Branch → Branch × Bool := awaitSignal true

/-- The block over `signal(SignalKind::terminate())`, whose error arm is
`pending()`. -/
def terminate : Bool → Branch → Branch × Bool := awaitSignal false

structure ShutdownSignal where
  branch : Signal → Branch
  /-- The branch whose arm of the `select!` ran. -/
  completed : Option Signal

inductive Event where
  | poll (branch : Signal) (installs : Bool)
  | deliver (signal : Signal)
  deriving DecidableEq, Repr

namespace ShutdownSignal

def start : ShutdownSignal where
  branch _ := .unpolled
  completed := none

def pollBranch : Signal → Bool → Branch → Branch × Bool
  | .sigint => interrupt
  | .sigterm => terminate

def step (s : ShutdownSignal) (e : Event) : ShutdownSignal :=
  match s.completed with
  | some _ => s
  | none =>
      match e with
      | .poll b installs =>
          let polled := pollBranch b installs (s.branch b)
          { branch := Function.update s.branch b polled.1
            completed := if polled.2 then some b else none }
      | .deliver signal =>
          match s.branch signal with
          | .listening _ =>
              { s with branch := Function.update s.branch signal (.listening true) }
          -- no handler of this future: nothing here observes the signal
          | _ => s

def run (es : List Event) : ShutdownSignal := es.foldl step start

theorem run_snoc (es : List Event) (e : Event) : run (es ++ [e]) = (run es).step e := by
  rw [run, List.foldl_append]
  rfl

def Installed (s : ShutdownSignal) (signal : Signal) : Prop :=
  ∃ pending, s.branch signal = .listening pending

/-! ## One poll and one step -/

/-- **When a block resolves**: its signal is pending, or it is the SIGINT block and
the installation just failed. -/
theorem pollBranch_resolves {b : Signal} {installs : Bool} {before : Branch} :
    (pollBranch b installs before).2 = true ↔
      before = .listening true ∨ (b = .sigint ∧ installs = false ∧ before = .unpolled) := by
  cases before with
  | unpolled => cases b <;> cases installs <;> decide
  | listening pending =>
      cases b <;> cases pending <;> simp [pollBranch, interrupt, terminate, awaitSignal]
  | failed => cases b <;> simp [pollBranch, interrupt, terminate, awaitSignal]

/-- A poll takes a pending signal, or finds none. -/
theorem pollBranch_not_pending (b : Signal) (installs : Bool) (before : Branch) :
    (pollBranch b installs before).1 ≠ .listening true := by
  cases before <;> cases b <;> cases installs <;>
    simp [pollBranch, interrupt, terminate, awaitSignal]

theorem step_of_completed {s : ShutdownSignal} (done : s.completed ≠ none) (e : Event) :
    s.step e = s := by
  unfold step
  cases completed : s.completed with
  | none => exact absurd completed done
  | some b => rfl

theorem step_poll {s : ShutdownSignal} (waiting : s.completed = none) (b : Signal)
    (installs : Bool) :
    s.step (.poll b installs) =
      { branch := Function.update s.branch b (pollBranch b installs (s.branch b)).1
        completed := if (pollBranch b installs (s.branch b)).2 then some b else none } := by
  simp only [step, waiting]

/-- A signal reaches the future if its handler is installed, and then nothing else
changes; else nothing changes at all. -/
theorem step_deliver {s : ShutdownSignal} (waiting : s.completed = none) (signal : Signal) :
    (s.Installed signal ∧ s.step (.deliver signal) =
        { s with branch := Function.update s.branch signal (.listening true) }) ∨
      (¬ s.Installed signal ∧ s.step (.deliver signal) = s) := by
  simp only [step, waiting, Installed]
  cases before : s.branch signal with
  | listening pending => exact .inl ⟨⟨pending, rfl⟩, rfl⟩
  | unpolled => exact .inr ⟨by simp, rfl⟩
  | failed => exact .inr ⟨by simp, rfl⟩

/-- A branch has a signal pending after a step only if it had one before or the step
delivered it to an installed handler. -/
theorem step_pending {s : ShutdownSignal} {e : Event} {signal : Signal}
    (pending : (s.step e).branch signal = .listening true) :
    s.branch signal = .listening true ∨ (e = .deliver signal ∧ s.Installed signal) := by
  by_cases waiting : s.completed = none
  · cases e with
    | poll b installs =>
        rw [step_poll waiting] at pending
        by_cases same : signal = b
        · subst same
          exact absurd ((Function.update_self ..).symm.trans pending)
            (pollBranch_not_pending _ _ _)
        · exact .inl ((Function.update_of_ne same ..).symm.trans pending)
    | deliver delivered =>
        rcases step_deliver waiting delivered with ⟨installed, next⟩ | ⟨-, next⟩
        · rw [next] at pending
          by_cases same : signal = delivered
          · subst same
            exact .inr ⟨rfl, installed⟩
          · exact .inl ((Function.update_of_ne same ..).symm.trans pending)
        · rw [next] at pending
          exact .inl pending
  · rw [step_of_completed waiting] at pending
    exact .inl pending

/-- **How the future completes.** -/
theorem step_completed {s : ShutdownSignal} {e : Event} {b : Signal}
    (waiting : s.completed = none) (completed : (s.step e).completed = some b) :
    s.branch b = .listening true ∨
      (b = .sigint ∧ e = .poll .sigint false ∧ s.branch .sigint = .unpolled) := by
  cases e with
  | poll polled installs =>
      rw [step_poll waiting] at completed
      simp only [Option.ite_none_right_eq_some, Option.some.injEq] at completed
      obtain ⟨resolves, rfl⟩ := completed
      rcases pollBranch_resolves.mp resolves with pending | ⟨rfl, rfl, unpolled⟩
      · exact .inl pending
      · exact .inr ⟨rfl, rfl, unpolled⟩
  | deliver signal =>
      rcases step_deliver waiting signal with ⟨-, next⟩ | ⟨-, next⟩ <;>
        rw [next, waiting] at completed <;> cases completed

/-- The future has completed, or the signal waits for the branch to be polled. -/
def Heard (s : ShutdownSignal) (signal : Signal) : Prop :=
  s.completed ≠ none ∨ s.branch signal = .listening true

theorem heard_step {s : ShutdownSignal} {signal : Signal} (heard : s.Heard signal) (e : Event) :
    (s.step e).Heard signal ∧
      ∀ installs, e = .poll signal installs → (s.step e).completed ≠ none := by
  by_cases waiting : s.completed = none
  · have pending : s.branch signal = .listening true := heard.resolve_left (not_not.mpr waiting)
    cases e with
    | poll b installs =>
        rw [step_poll waiting]
        by_cases same : signal = b
        · subst same
          have resolves : (pollBranch signal installs (s.branch signal)).2 = true :=
            pollBranch_resolves.mpr (.inl pending)
          simp [Heard, resolves]
        · refine ⟨.inr ((Function.update_of_ne same ..).trans pending), ?_⟩
          rintro installs' ⟨⟩
          exact absurd rfl same
    | deliver delivered =>
        refine ⟨.inr ?_, nofun⟩
        rcases step_deliver waiting delivered with ⟨-, next⟩ | ⟨-, next⟩ <;> rw [next]
        · by_cases same : signal = delivered
          · subst same
            exact Function.update_self ..
          · exact (Function.update_of_ne same ..).trans pending
        · exact pending
  · rw [step_of_completed waiting]
    exact ⟨.inl waiting, fun _ _ => waiting⟩

/-- A signal delivered to an installed handler is heard. -/
theorem heard_of_deliver {s : ShutdownSignal} {signal : Signal} (installed : s.Installed signal) :
    (s.step (.deliver signal)).Heard signal := by
  by_cases waiting : s.completed = none
  · rcases step_deliver waiting signal with ⟨-, next⟩ | ⟨missing, -⟩
    · rw [next]
      exact .inr (Function.update_self ..)
    · exact absurd installed missing
  · rw [step_of_completed waiting]
    exact .inl waiting

theorem heard_run {s : ShutdownSignal} {signal : Signal} (heard : s.Heard signal)
    (es : List Event) : (es.foldl step s).Heard signal := by
  induction es generalizing s with
  | nil => exact heard
  | cons e es ih => exact ih (heard_step heard e).1

/-- A completed future stays completed. -/
theorem foldl_of_completed {s : ShutdownSignal} (done : s.completed ≠ none) (es : List Event) :
    es.foldl step s = s := by
  induction es with
  | nil => rfl
  | cons e es ih => rw [List.foldl_cons, step_of_completed done, ih]

/-! ## One step, seen by one branch -/

/-- The branch an event is about. -/
def signalOf : Event → Signal
  | .poll b _ => b
  | .deliver signal => signal

theorem step_other {s : ShutdownSignal} {e : Event} {b : Signal} (other : b ≠ signalOf e) :
    (s.step e).branch b = s.branch b := by
  by_cases waiting : s.completed = none
  · cases e with
    | poll p installs =>
        rw [step_poll waiting]
        exact Function.update_of_ne other ..
    | deliver signal =>
        rcases step_deliver waiting signal with ⟨-, next⟩ | ⟨-, next⟩ <;> rw [next]
        exact Function.update_of_ne other ..
  · rw [step_of_completed waiting]

theorem step_poll_self {s : ShutdownSignal} (waiting : s.completed = none) (b : Signal)
    (installs : Bool) :
    (s.step (.poll b installs)).branch b = (pollBranch b installs (s.branch b)).1 := by
  rw [step_poll waiting]
  exact Function.update_self ..

/-- A signal leaves a handler where one was, and an unpolled branch unpolled. -/
theorem step_deliver_self (s : ShutdownSignal) (b : Signal) :
    ((s.step (.deliver b)).Installed b ↔ s.Installed b) ∧
      ((s.step (.deliver b)).branch b = .unpolled ↔ s.branch b = .unpolled) := by
  by_cases waiting : s.completed = none
  · rcases step_deliver waiting b with ⟨installed, next⟩ | ⟨-, next⟩
    · have after : (s.step (.deliver b)).branch b = .listening true := by
        rw [next]
        exact Function.update_self ..
      obtain ⟨pending, before⟩ := installed
      simp [Installed, after, before]
    · simp [next]
  · rw [step_of_completed waiting]
    exact ⟨Iff.rfl, Iff.rfl⟩

theorem pollBranch_polled (b : Signal) (installs : Bool) (before : Branch) :
    (pollBranch b installs before).1 ≠ .unpolled := by
  cases before <;> cases b <;> cases installs <;>
    simp [pollBranch, interrupt, terminate, awaitSignal]

/-- A poll leaves a handler where one was, or installs the first. -/
theorem pollBranch_listening {b : Signal} {installs : Bool} {before : Branch} :
    (∃ pending, (pollBranch b installs before).1 = .listening pending) ↔
      (∃ pending, before = .listening pending) ∨ (before = .unpolled ∧ installs = true) := by
  cases before <;> cases b <;> cases installs <;>
    simp [pollBranch, interrupt, terminate, awaitSignal]

/-! ## What a branch shows of the events -/

/-- The branch has not been polled. -/
def Unpolled (es : List Event) (b : Signal) : Prop := ∀ installs, Event.poll b installs ∉ es

/-- The first poll of the branch installs its handler. -/
def Installs (es : List Event) (b : Signal) : Prop :=
  ∃ before after, es = before ++ .poll b true :: after ∧ Unpolled before b

theorem unpolled_snoc {es : List Event} {e : Event} {b : Signal}
    (other : ∀ installs, e ≠ .poll b installs) : Unpolled (es ++ [e]) b ↔ Unpolled es b := by
  simp [Unpolled, Ne.symm (other _)]

/-- A future that has not completed had not completed before. -/
theorem waiting_before {es later : List Event} (waiting : (run (es ++ later)).completed = none) :
    (run es).completed = none := by
  by_contra done
  have frozen : run (es ++ later) = run es := by
    rw [run, List.foldl_append]
    exact foldl_of_completed done later
  rw [frozen] at waiting
  exact done waiting

/-- While the future waits, a branch is unpolled as far as the events go. -/
theorem unpolled_iff {es : List Event} (waiting : (run es).completed = none) (b : Signal) :
    (run es).branch b = .unpolled ↔ Unpolled es b := by
  induction es using List.reverseRecOn with
  | nil => exact iff_of_true rfl fun _ member => absurd member List.not_mem_nil
  | append_singleton es e ih =>
      have before := waiting_before waiting
      rw [run_snoc]
      cases e with
      | poll p installs =>
          by_cases same : b = p
          · subst same
            rw [step_poll_self before]
            refine iff_of_false (pollBranch_polled b installs _) fun unpolled => ?_
            exact unpolled installs (by simp)
          · rw [step_other same, ih before, unpolled_snoc]
            rintro installs' ⟨⟩
            exact same rfl
      | deliver signal =>
          rw [unpolled_snoc (by simp), ← ih before]
          by_cases same : b = signal
          · subst same
            exact (step_deliver_self _ b).2
          · rw [step_other same]

theorem installs_snoc {es : List Event} {e : Event} {b : Signal} :
    Installs (es ++ [e]) b ↔ Installs es b ∨ (e = .poll b true ∧ Unpolled es b) := by
  constructor
  · rintro ⟨before, after, split, unpolled⟩
    rcases List.eq_nil_or_concat after with rfl | ⟨after, last, rfl⟩
    · obtain ⟨rfl, same⟩ := List.append_inj' split rfl
      cases same
      exact .inr ⟨rfl, unpolled⟩
    · rw [List.concat_eq_append, ← List.cons_append, ← List.append_assoc] at split
      obtain ⟨rfl, -⟩ := List.append_inj' split rfl
      exact .inl ⟨before, after, rfl, unpolled⟩
  · rintro (⟨before, after, rfl, unpolled⟩ | ⟨rfl, unpolled⟩)
    · exact ⟨before, after ++ [e], by simp, unpolled⟩
    · exact ⟨es, [], rfl, unpolled⟩

/-- While the future waits, a handler is there if the first poll installed it. -/
theorem installed_iff_installs {es : List Event} (waiting : (run es).completed = none)
    (b : Signal) : (run es).Installed b ↔ Installs es b := by
  induction es using List.reverseRecOn with
  | nil =>
      refine iff_of_false ?_ ?_
      · rintro ⟨pending, ⟨⟩⟩
      · rintro ⟨before, after, split, -⟩
        simp at split
  | append_singleton es e ih =>
      have before := waiting_before waiting
      rw [run_snoc, installs_snoc, ← ih before, ← unpolled_iff before]
      by_cases same : b = signalOf e
      · subst same
        cases e with
        | poll b installs =>
            show (∃ pending, ((run es).step (.poll b installs)).branch b = .listening pending) ↔ _
            rw [step_poll_self before, pollBranch_listening]
            simp [Installed, signalOf, and_comm]
        | deliver signal =>
            show ((run es).step (.deliver signal)).Installed signal ↔ _
            rw [(step_deliver_self (run es) signal).1]
            simp [signalOf]
      · have unchanged : ((run es).step e).Installed b ↔ (run es).Installed b := by
          rw [Installed, step_other same, Installed]
        rw [unchanged]
        refine (or_iff_left ?_).symm
        rintro ⟨rfl, -⟩
        exact same rfl

/-! ## Whole runs -/

/-- Some signal was delivered to a handler installed by then. -/
def Delivered (es : List Event) (signal : Signal) : Prop :=
  ∃ before after, es = before ++ .deliver signal :: after ∧ (run before).Installed signal

theorem Delivered.snoc {es : List Event} {signal : Signal} (delivered : Delivered es signal)
    (e : Event) : Delivered (es ++ [e]) signal := by
  obtain ⟨before, after, rfl, installed⟩ := delivered
  exact ⟨before, after ++ [e], by simp, installed⟩

theorem delivered_snoc {es : List Event} {e : Event} {signal : Signal}
    (delivered : Delivered (es ++ [e]) signal) :
    Delivered es signal ∨ (e = .deliver signal ∧ (run es).Installed signal) := by
  obtain ⟨before, after, split, installed⟩ := delivered
  rcases List.eq_nil_or_concat after with rfl | ⟨after, last, rfl⟩
  · obtain ⟨rfl, same⟩ := List.append_inj' split rfl
    cases same
    exact .inr ⟨rfl, installed⟩
  · rw [List.concat_eq_append, ← List.cons_append, ← List.append_assoc] at split
    obtain ⟨rfl, -⟩ := List.append_inj' split rfl
    exact .inl ⟨before, after, rfl, installed⟩

/-- Completed, then asked to. -/
def NeverUnasked (es : List Event) : Prop :=
  (run es).completed ≠ none → ∃ signal, Delivered es signal

/-- A signal delivered to an installed handler, whose branch is polled again, has
completed the future. -/
def AlwaysWhenAsked (es : List Event) : Prop :=
  ∀ signal before between after installs,
    es = before ++ .deliver signal :: between ++ .poll signal installs :: after →
    (run before).Installed signal → (run es).completed ≠ none

/-- The signal comes after the first poll of its branch installed the handler. -/
def Reached (es : List Event) (signal : Signal) : Prop :=
  ∃ before after, es = before ++ .deliver signal :: after ∧ Installs before signal

/-- The first poll of the SIGINT branch fails to install its handler, before any signal
has reached one. -/
def Spurious (done : List Event) (e : Event) : Prop :=
  e = .poll .sigint false ∧ Unpolled done .sigint ∧ ∀ signal, ¬ Reached done signal

/-- A pending signal was delivered. -/
theorem delivered_of_pending {es : List Event} {signal : Signal}
    (pending : (run es).branch signal = .listening true) : Delivered es signal := by
  induction es using List.reverseRecOn with
  | nil => cases pending
  | append_singleton es e ih =>
      rw [run_snoc] at pending
      rcases step_pending pending with before | ⟨rfl, installed⟩
      · exact (ih before).snoc e
      · exact ⟨es, [], rfl, installed⟩

theorem Reached.snoc {es : List Event} {signal : Signal} (reached : Reached es signal)
    (e : Event) : Reached (es ++ [e]) signal := by
  obtain ⟨before, after, rfl, installs⟩ := reached
  exact ⟨before, after ++ [e], by simp, installs⟩

/-- While the future waits, what reached a handler was delivered to it. -/
theorem Reached.delivered {es : List Event} {signal : Signal} (reached : Reached es signal)
    (waiting : (run es).completed = none) : Delivered es signal := by
  obtain ⟨before, after, rfl, installs⟩ := reached
  exact ⟨before, after, rfl, (installed_iff_installs (waiting_before waiting) signal).mpr installs⟩

/-- With the SIGINT branch unpolled and no signal come to a handler, the future waits and
has been delivered none. -/
theorem waiting_of_unreached {es : List Event} (unpolled : Unpolled es .sigint)
    (unreached : ∀ signal, ¬ Reached es signal) :
    (run es).completed = none ∧ ∀ signal, ¬ Delivered es signal := by
  induction es using List.reverseRecOn with
  | nil =>
      refine ⟨rfl, ?_⟩
      rintro signal ⟨before, after, split, -⟩
      simp at split
  | append_singleton es e ih =>
      obtain ⟨waiting, undelivered⟩ := ih
        (fun installs member => unpolled installs (List.mem_append_left _ member))
        (fun signal reached => unreached signal (reached.snoc e))
      refine ⟨?_, fun signal delivered => ?_⟩
      · rw [run_snoc]
        by_contra done
        obtain ⟨b, completed⟩ := Option.ne_none_iff_exists'.mp done
        rcases step_completed waiting completed with pending | ⟨-, rfl, -⟩
        · exact undelivered b (delivered_of_pending pending)
        · exact unpolled false (by simp)
      · rcases delivered_snoc delivered with before | ⟨rfl, installed⟩
        · exact undelivered signal before
        · exact unreached signal
            ⟨es, [], rfl, (installed_iff_installs waiting signal).mp installed⟩

theorem always_when_asked (es : List Event) : AlwaysWhenAsked es := by
  rintro signal before between after installs rfl installed
  have heard : (run (before ++ [.deliver signal])).Heard signal := by
    rw [run_snoc]
    exact heard_of_deliver installed
  have polled := (heard_step (heard_run heard between) (.poll signal installs)).2 installs rfl
  have split : run (before ++ .deliver signal :: between ++ .poll signal installs :: after) =
      after.foldl step ((between.foldl step (run (before ++ [.deliver signal]))).step
        (.poll signal installs)) := by
    simp [run, List.foldl_append]
  rw [split, foldl_of_completed polled]
  exact polled

/-- Along a run without a spurious step, completion means having been asked. -/
theorem never_unasked {es : List Event}
    (honest : ∀ done e rest, es = done ++ e :: rest → ¬ Spurious done e) : NeverUnasked es := by
  induction es using List.reverseRecOn with
  | nil => exact fun completed => absurd rfl completed
  | append_singleton es e ih =>
      have earlier : NeverUnasked es := by
        refine ih fun done e' rest split => honest done e' (rest ++ [e]) ?_
        rw [split, List.append_assoc, List.cons_append]
      intro completed
      rw [run_snoc] at completed
      by_cases asked : ∃ signal, Delivered es signal
      · obtain ⟨signal, delivered⟩ := asked
        exact ⟨signal, delivered.snoc e⟩
      · by_cases waiting : (run es).completed = none
        · obtain ⟨b, completed⟩ := Option.ne_none_iff_exists'.mp completed
          rcases step_completed waiting completed with pending | ⟨-, rfl, unpolled⟩
          · exact absurd ⟨b, delivered_of_pending pending⟩ asked
          · have unreached : ∀ signal, ¬ Reached es signal := fun signal reached =>
              asked ⟨signal, reached.delivered waiting⟩
            exact absurd ⟨rfl, (unpolled_iff waiting _).mp unpolled, unreached⟩
              (honest es _ [] rfl)
        · exact absurd (earlier waiting) asked

/-- A spurious step completes the future unasked. -/
theorem Spurious.unasked {done : List Event} {e : Event} (spurious : Spurious done e) :
    ¬ NeverUnasked (done ++ [e]) := by
  obtain ⟨rfl, unpolled, unreached⟩ := spurious
  obtain ⟨waiting, undelivered⟩ := waiting_of_unreached unpolled unreached
  rw [← unpolled_iff waiting] at unpolled
  intro asked
  have completed : (run (done ++ [.poll .sigint false])).completed ≠ none := by
    rw [run_snoc, step_poll waiting, unpolled]
    simp [pollBranch, interrupt, awaitSignal]
  obtain ⟨signal, delivered⟩ := asked completed
  rcases delivered_snoc delivered with before | ⟨impossible, -⟩
  · exact undelivered signal before
  · cases impossible

/-- **Never unasked, and always when asked.**  Both hold at every point of a run
exactly when none of its steps is the SIGINT handler failing to install before any signal
has come to an installed one. -/
theorem shutdown_exact (es : List Event) :
    (∀ done rest, es = done ++ rest → NeverUnasked done ∧ AlwaysWhenAsked done) ↔
      ∀ done e rest, es = done ++ e :: rest → ¬ Spurious done e := by
  constructor
  · intro holds done e rest split spurious
    have here : es = (done ++ [e]) ++ rest := by rw [split, List.append_assoc]; rfl
    exact spurious.unasked (holds _ rest here).1
  · intro honest done rest split
    refine ⟨never_unasked fun done' e rest' split' => ?_, always_when_asked done⟩
    refine honest done' e (rest' ++ rest) ?_
    rw [split, split', List.append_assoc, List.cons_append]

/-- One failed installation shuts the server down. -/
theorem failed_install_completes :
    ¬ ∀ es, NeverUnasked es ∧ AlwaysWhenAsked es := by
  intro claimed
  have completed : (run [.poll .sigint false]).completed ≠ none := by decide
  obtain ⟨signal, before, after, split, -⟩ := (claimed [.poll .sigint false]).1 completed
  have inside : Event.deliver signal ∈ [Event.poll .sigint false] := by
    rw [split]
    simp
  simp at inside

end ShutdownSignal

end CrewList.Server
