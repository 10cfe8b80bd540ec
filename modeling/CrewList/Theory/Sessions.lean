/-
# CrewList.Theory.Sessions -- programs that serve requests over one store

Any number of processes receive requests.  Each runs the program of the request it has
received, one call at a time, and responds with the result; between any two steps it may
be dropped.  A call acts on the store at once, and the calls of all the processes
interleave in any order.

* `serial`: the store and the replies are those of the calls made one after another, in
  the order in which they took effect;
* `responded` and `called`: a response ends a session, and a call belongs to one: the
  process received a request before, has done nothing since but the calls its program
  makes, and these lead the program to just this response or call (`Session`).
-/
import CrewList.Theory.Program

namespace CrewList.Theory

set_option autoImplicit false

/-! ## Programs and their calls -/

section Traces

variable {K : Type} {R : K → Type} {A σ : Type}

/-- The program, having made these calls and got these replies, is at the other. -/
inductive Program.Trace : Program K R A → List (Sigma R) → Program K R A → Prop where
  | nil (p : Program K R A) : Trace p [] p
  | call {k : K} {next : R k → Program K R A} {r : R k} {cs : List (Sigma R)}
      {left : Program K R A} (rest : Trace (next r) cs left) :
      Trace (.call k next) (⟨k, r⟩ :: cs) left

theorem Program.Trace.snoc {p : Program K R A} {cs : List (Sigma R)} {k : K}
    {next : R k → Program K R A} (trace : Trace p cs (.call k next)) (r : R k) :
    Trace p (cs ++ [⟨k, r⟩]) (next r) := by
  generalize last : Program.call k next = left at trace
  induction trace with
  | nil p =>
      subst last
      exact .call (.nil _)
  | call _ ih => exact .call (ih last)

/-- What is done with the result comes after the calls. -/
theorem Program.Trace.of_map {B : Type} {f : A → B} {p : Program K R A} {cs : List (Sigma R)}
    {left : Program K R B} (trace : Trace (f <$> p) cs left) :
    ∃ left', Trace p cs left' ∧ left = f <$> left' := by
  induction p generalizing cs with
  | done a =>
      change Trace (.done (f a)) cs left at trace
      cases trace
      exact ⟨.done a, .nil _, rfl⟩
  | call k next ih =>
      change Trace (.call k fun r => f <$> next r) cs left at trace
      cases trace with
      | nil => exact ⟨.call k next, .nil _, rfl⟩
      | call rest =>
          obtain ⟨left', inner, rfl⟩ := ih _ rest
          exact ⟨left', .call inner, rfl⟩

theorem Program.Trace.of_map_done {B : Type} {f : A → B} {p : Program K R A} {cs : List (Sigma R)}
    {b : B} (trace : Trace (f <$> p) cs (.done b)) : ∃ a, Trace p cs (.done a) ∧ b = f a := by
  obtain ⟨left, inner, same⟩ := trace.of_map
  cases left with
  | done a =>
      cases same
      exact ⟨a, inner, rfl⟩
  | call k next => cases same

theorem Program.Trace.of_map_call {B : Type} {f : A → B} {p : Program K R A} {cs : List (Sigma R)}
    {k : K} {next : R k → Program K R B} (trace : Trace (f <$> p) cs (.call k next)) :
    ∃ next', Trace p cs (.call k next') := by
  obtain ⟨left, inner, same⟩ := trace.of_map
  cases left with
  | done a => cases same
  | call k' next' =>
      cases same
      exact ⟨next', inner⟩

/-- The calls, made one after another, give these replies and leave the store so. -/
def Serially (exec : (k : K) → StateM σ (R k)) : σ → List (Sigma R) → σ → Prop
  | s, [], s' => s' = s
  | s, ⟨k, r⟩ :: cs, s' => ((exec k).run s).1 = r ∧ Serially exec ((exec k).run s).2 cs s'

end Traces

/-! ## Processes that serve -/

/-- What happens; a call comes with its reply. -/
inductive Happening (ι Q : Type) {K : Type} (R : K → Type) (A : Type) where
  | receive (p : ι) (q : Q)
  | call (p : ι) (made : Sigma R)
  | respond (p : ι) (a : A)
  | drop (p : ι)

section Serving

variable {ι Q K : Type} {R : K → Type} {A σ : Type}

def Happening.process : Happening ι Q R A → ι
  | .receive p _ | .call p _ | .respond p _ | .drop p => p

def Happening.made : Happening ι Q R A → Option (Sigma R)
  | .call _ made => some made
  | _ => none

variable [DecidableEq ι]

/-- The calls of one process. -/
def callsOf (p : ι) (es : List (Happening ι Q R A)) : List (Sigma R) :=
  (es.filter fun e => e.process = p).filterMap Happening.made

variable (exec : (k : K) → StateM σ (R k)) (handler : Q → Program K R A)

inductive ServeStep : Threads ι K R A σ → Happening ι Q R A → Threads ι K R A σ → Prop where
  | receive {w : Threads ι K R A σ} {p : ι} (q : Q) (idle : w.thread p = .down) :
      ServeStep w (.receive p q) (w.set p (.running (handler q)))
  | call {w : Threads ι K R A σ} {p : ι} {k : K} {next : R k → Program K R A}
      (up : w.thread p = .running (.call k next)) :
      ServeStep w (.call p ⟨k, ((exec k).run w.store).1⟩)
        (Threads.set { w with store := ((exec k).run w.store).2 } p
          (.running (next ((exec k).run w.store).1)))
  | respond {w : Threads ι K R A σ} {p : ι} {a : A} (up : w.thread p = .running (.done a)) :
      ServeStep w (.respond p a) (w.set p .down)
  | drop {w : Threads ι K R A σ} {p : ι} {left : Program K R A}
      (up : w.thread p = .running left) : ServeStep w (.drop p) (w.set p .down)

variable {exec handler}

/-- **The order in which the calls take effect explains the store and the replies.** -/
theorem serial {w w' : Threads ι K R A σ} {es : List (Happening ι Q R A)}
    (run : Run (ServeStep exec handler) w es w') :
    Serially exec w.store (es.filterMap Happening.made) w'.store := by
  induction run with
  | nil w => rfl
  | cons head _ ih =>
      cases head with
      | receive q idle => exact ih
      | call up => exact ⟨rfl, ih⟩
      | respond up => exact ih
      | drop up => exact ih

/-! ## Sessions -/

/-- Process `p` received `q`, and has done nothing since but these calls. -/
def Since (p : ι) (q : Q) (done : List (Happening ι Q R A)) (calls : List (Sigma R)) : Prop :=
  ∃ earlier since, done = earlier ++ .receive p q :: since ∧
    (∀ e ∈ since, e.process = p → ∃ made, e = .call p made) ∧ callsOf p since = calls

theorem Since.subset {p : ι} {q : Q} {done : List (Happening ι Q R A)} {calls : List (Sigma R)}
    (since : Since p q done calls) : calls ⊆ done.filterMap Happening.made := by
  obtain ⟨earlier, later, rfl, -, rfl⟩ := since
  intro made own
  obtain ⟨e, member, call⟩ := List.mem_filterMap.mp own
  have done : e ∈ earlier ++ .receive p q :: later :=
    List.mem_append_right _ (List.mem_cons_of_mem _ (List.mem_of_mem_filter member))
  exact List.mem_filterMap.mpr ⟨e, done, call⟩

variable (handler) in
/-- The calls since `p` received `q` have led the program of `q` to `left`. -/
def Session (p : ι) (q : Q) (done : List (Happening ι Q R A)) (calls : List (Sigma R))
    (left : Program K R A) : Prop :=
  Since p q done calls ∧ (handler q).Trace calls left

/-- The process is idle, or in a session. -/
def InSession (handler : Q → Program K R A) (p : ι) (done : List (Happening ι Q R A))
    (w : Threads ι K R A σ) : Prop :=
  w.thread p = .down ∨
    ∃ q calls left, w.thread p = .running left ∧ Session handler p q done calls left

theorem Session.other {p : ι} {q : Q} {done : List (Happening ι Q R A)} {calls : List (Sigma R)}
    {left : Program K R A} (session : Session handler p q done calls left)
    {e : Happening ι Q R A} (other : e.process ≠ p) :
    Session handler p q (done ++ [e]) calls left := by
  obtain ⟨⟨earlier, since, rfl, only, made⟩, trace⟩ := session
  refine ⟨⟨earlier, since ++ [e], by simp, fun e' member own => ?_, ?_⟩, trace⟩
  · rcases List.mem_append.mp member with before | here
    · exact only e' before own
    · rw [List.mem_singleton.mp here] at own
      exact absurd own other
  · simpa [callsOf, List.filter_append, other] using made

theorem Session.call {p : ι} {q : Q} {done : List (Happening ι Q R A)} {calls : List (Sigma R)}
    {k : K} {next : R k → Program K R A} (session : Session handler p q done calls (.call k next))
    (r : R k) :
    Session handler p q (done ++ [.call p ⟨k, r⟩]) (calls ++ [⟨k, r⟩]) (next r) := by
  obtain ⟨⟨earlier, since, rfl, only, made⟩, trace⟩ := session
  refine ⟨⟨earlier, since ++ [.call p ⟨k, r⟩], by simp, fun e member own => ?_, ?_⟩,
    trace.snoc r⟩
  · rcases List.mem_append.mp member with before | here
    · exact only e before own
    · exact ⟨_, List.mem_singleton.mp here⟩
  · rw [← made]
    simp [callsOf, List.filter_append, Happening.process, Happening.made]

/-- **One step**, whoever takes it. -/
theorem InSession.step {p : ι} {done : List (Happening ι Q R A)} {w w' : Threads ι K R A σ}
    {e : Happening ι Q R A} (inSession : InSession handler p done w)
    (step : ServeStep exec handler w e w') : InSession handler p (done ++ [e]) w' := by
  have other : e.process ≠ p → w'.thread p = w.thread p →
      InSession handler p (done ++ [e]) w' := by
    intro foreign same
    rw [InSession, same]
    rcases inSession with idle | ⟨q, calls, left, up, session⟩
    · exact .inl idle
    · exact .inr ⟨q, calls, left, up, session.other foreign⟩
  cases step with
  | @receive r q idle =>
      by_cases same : r = p
      · subst same
        have since : Since r q (done ++ [.receive r q]) [] := ⟨done, [], rfl, nofun, rfl⟩
        exact .inr ⟨q, [], handler q, Threads.set_thread_self .., since, .nil _⟩
      · exact other same (Threads.set_thread_ne (Ne.symm same) _)
  | @call r k next up =>
      by_cases same : r = p
      · subst same
        rcases inSession with idle | ⟨q, calls, left, here, session⟩
        · rw [idle] at up
          cases up
        · rw [here] at up
          cases up
          exact .inr ⟨q, _, _, Threads.set_thread_self .., session.call _⟩
      · exact other same (Threads.set_thread_ne (Ne.symm same) _)
  | @respond r a up =>
      by_cases same : r = p
      · subst same
        exact .inl (Threads.set_thread_self ..)
      · exact other same (Threads.set_thread_ne (Ne.symm same) _)
  | @drop r left up =>
      by_cases same : r = p
      · subst same
        exact .inl (Threads.set_thread_self ..)
      · exact other same (Threads.set_thread_ne (Ne.symm same) _)

theorem InSession.run {p : ι} {w w' : Threads ι K R A σ} {es : List (Happening ι Q R A)}
    (idle : w.thread p = .down) (run : Run (ServeStep exec handler) w es w') :
    InSession handler p es w' :=
  run.history (.inl idle) fun _ inSession step => inSession.step step

/-- **A response ends a session.** -/
theorem responded {p : ι} {w w' : Threads ι K R A σ} {before after : List (Happening ι Q R A)}
    {a : A} (idle : w.thread p = .down)
    (run : Run (ServeStep exec handler) w (before ++ .respond p a :: after) w') :
    ∃ q calls, Session handler p q before calls (.done a) := by
  obtain ⟨u, first, second⟩ := run.split
  cases second with
  | cons head _ =>
      cases head with
      | respond up =>
          rcases InSession.run idle first with down | ⟨q, calls, left, here, session⟩
          · rw [down] at up
            cases up
          · rw [here] at up
            cases up
            exact ⟨q, calls, session⟩

/-- **A call belongs to a session.** -/
theorem called {p : ι} {w w' : Threads ι K R A σ} {before after : List (Happening ι Q R A)}
    {made : Sigma R} (idle : w.thread p = .down)
    (run : Run (ServeStep exec handler) w (before ++ .call p made :: after) w') :
    ∃ q calls next, Session handler p q before calls (.call made.1 next) := by
  obtain ⟨u, first, second⟩ := run.split
  cases second with
  | cons head _ =>
      cases head with
      | call up =>
          rcases InSession.run idle first with down | ⟨q, calls, left, here, session⟩
          · rw [down] at up
            cases up
          · rw [here] at up
            cases up
            exact ⟨q, calls, _, session⟩

end Serving

end CrewList.Theory
