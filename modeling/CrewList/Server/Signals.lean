/-
# CrewList.Server.Signals -- `shutdown_signal`, told by its events alone

`Shutdown` follows the future's state.  Whether it has completed can be read off the
polls and the signals themselves: `completed_exact` says which sequences complete it, and
which signal's arm may then have run.
-/
import CrewList.Server.Shutdown

namespace CrewList.Server.ShutdownSignal

set_option autoImplicit false

/-- The signal comes after the first poll of its branch installed the handler, and after
that the branch is polled again. -/
def Observes (es : List Event) (b : Signal) : Prop :=
  ∃ before between after installs,
    es = before ++ .deliver b :: between ++ .poll b installs :: after ∧ Installs before b

/-- The first poll of the branch fails to install its handler. -/
def InstallFails (es : List Event) (b : Signal) : Prop :=
  ∃ before after, es = before ++ .poll b false :: after ∧ Unpolled before b

/-! ## Completion -/

theorem Observes.append {es : List Event} {b : Signal} (observes : Observes es b)
    (later : List Event) : Observes (es ++ later) b := by
  obtain ⟨before, between, after, installs, rfl, installed⟩ := observes
  exact ⟨before, between, after ++ later, installs, by simp, installed⟩

theorem InstallFails.append {es : List Event} {b : Signal} (fails : InstallFails es b)
    (later : List Event) : InstallFails (es ++ later) b := by
  obtain ⟨before, after, rfl, unpolled⟩ := fails
  exact ⟨before, after ++ later, by simp, unpolled⟩

/-- The arm that runs is that of the branch polled. -/
theorem step_completes {s : ShutdownSignal} {e : Event} {b : Signal} (waiting : s.completed = none)
    (completed : (s.step e).completed = some b) : ∃ installs, e = .poll b installs := by
  cases e with
  | poll p installs =>
      rw [step_poll waiting] at completed
      simp only [Option.ite_none_right_eq_some, Option.some_inj] at completed
      obtain ⟨-, rfl⟩ := completed
      exact ⟨installs, rfl⟩
  | deliver signal =>
      rcases step_deliver waiting signal with ⟨-, next⟩ | ⟨-, next⟩ <;>
        rw [next, waiting] at completed <;> cases completed

/-- **What completion tells**: the arm that ran has seen its signal, or is that of the
SIGINT handler that could not be installed. -/
theorem completed_tells {es : List Event} {b : Signal} (completed : (run es).completed = some b) :
    Observes es b ∨ (b = .sigint ∧ InstallFails es .sigint) := by
  induction es using List.reverseRecOn with
  | nil => cases completed
  | append_singleton es e ih =>
      rw [run_snoc] at completed
      by_cases waiting : (run es).completed = none
      · obtain ⟨installs, rfl⟩ := step_completes waiting completed
        rcases step_completed waiting completed with pending | ⟨rfl, failed, unpolled⟩
        · obtain ⟨before, between, rfl, installed⟩ := delivered_of_pending pending
          have installs' := (installed_iff_installs (waiting_before waiting) b).mp installed
          exact .inl ⟨before, between, [], installs, by simp, installs'⟩
        · cases failed
          exact .inr ⟨rfl, es, [], rfl, (unpolled_iff waiting _).mp unpolled⟩
      · rw [step_of_completed waiting] at completed
        rcases ih completed with observes | ⟨rfl, fails⟩
        · exact .inl (observes.append [e])
        · exact .inr ⟨rfl, fails.append [e]⟩

theorem Observes.completed {es : List Event} {b : Signal} (observes : Observes es b) :
    (run es).completed ≠ none := by
  obtain ⟨before, between, after, installs, rfl, installed⟩ := observes
  intro waiting
  have prior : (run before).completed = none := by
    rw [List.append_assoc] at waiting
    exact waiting_before waiting
  exact always_when_asked _ b before between after installs rfl
    ((installed_iff_installs prior b).mpr installed) waiting

theorem InstallFails.completed {es : List Event} (fails : InstallFails es .sigint) :
    (run es).completed ≠ none := by
  obtain ⟨before, after, rfl, unpolled⟩ := fails
  intro waiting
  have split : before ++ .poll .sigint false :: after =
      (before ++ [.poll .sigint false]) ++ after := by simp
  rw [split] at waiting
  have polled := waiting_before waiting
  have prior := waiting_before polled
  rw [run_snoc, step_poll prior, (unpolled_iff prior _).mpr unpolled] at polled
  simp [pollBranch, interrupt, awaitSignal] at polled

/-- **When the server is told to shut down.**  For every sequence of polls and signals: the
future has completed exactly if the first poll of the SIGINT branch failed to install
its handler, or the first poll of some branch installed its handler, the signal came
after that and the branch was polled again after that; and the arm that ran is the one
of that branch.  A SIGTERM handler that cannot be installed completes nothing. -/
theorem completed_exact (es : List Event) :
    ((run es).completed ≠ none ↔ (∃ b, Observes es b) ∨ InstallFails es .sigint) ∧
      ∀ b, (run es).completed = some b →
        Observes es b ∨ (b = .sigint ∧ InstallFails es .sigint) := by
  refine ⟨⟨fun done => ?_, ?_⟩, fun b => completed_tells⟩
  · obtain ⟨b, completed⟩ := Option.ne_none_iff_exists'.mp done
    rcases completed_tells completed with observes | ⟨-, fails⟩
    · exact .inl ⟨b, observes⟩
    · exact .inr fails
  · rintro (⟨b, observes⟩ | fails)
    · exact observes.completed
    · exact fails.completed

end CrewList.Server.ShutdownSignal
