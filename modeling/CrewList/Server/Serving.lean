/-
# CrewList.Server.Serving -- requests served at once

axum serves every request in a task of its own, over one shared repo.  An operation of the
repo is a program of calls, each of which acts at once: a ping of a store, a statement
that holds a lock.  A task runs the handler of its request one call at a time, and
between any two of them other tasks make theirs; a client that goes away drops the task,
here at any point, which is more than a future that is dropped between two polls can do.

`interleaved` is what remains of serving one request after another: whatever the
interleaving, a response is the answer to the one operation its request asks for, run
from its first call to its last since the request came; and no call is made but the next
one of such an operation.
-/
import CrewList.Server.Api
import CrewList.Theory.Sessions

namespace CrewList.Server

open CrewList.Core
open CrewList.Theory
open CrewList.Theory.Serde

set_option autoImplicit false

section Tasks

variable {ι σ T K : Type} {R : K → Type} [DecidableEq ι] (axum : Axum) (form : TextForm T)
  (port : Port (Program K R) T) (exec : (k : K) → StateM σ (R k))

/-- Any number of tasks over one repo, whose calls act on a store as `exec` says. -/
abbrev Serving := ServeStep (ι := ι) exec (serve axum form port)

/-- What a response comes of: the operation asked for, with all its calls and their replies;
or a request that asks for none. -/
def Explains (req : Request) (calls : List (Sigma R)) (r : Response) : Prop :=
  (∃ op reply, Asks axum req op ∧ (port.perform op).Trace calls (.done reply) ∧
      r = (answer form (.of op reply)).to req.method) ∨
    (∀ op, ¬ Asks axum req op) ∧ calls = [] ∧ ∃ refusal, Refusal req refusal ∧
      r = refusal.to req.method

variable {axum form port exec}

theorem serve_responds {req : Request} {calls : List (Sigma R)} {r : Response}
    (trace : (serve axum form port req).Trace calls (.done r)) :
    Explains axum form port req calls r := by
  by_cases asked : ∃ op, Asks axum req op
  · obtain ⟨op, asks⟩ := asked
    rw [serve_asked asks] at trace
    obtain ⟨reply, trace, same⟩ := trace.of_map_done
    exact .inl ⟨op, reply, asks, trace, same⟩
  · have unasked := not_exists.mp asked
    obtain ⟨refusal, refused, served⟩ :
        ∃ refusal, Refusal req refusal ∧ serve axum form port req = .done (refusal.to req.method) :=
      serve_unasked unasked
    rw [served] at trace
    cases trace
    exact .inr ⟨unasked, rfl, refusal, refused, rfl⟩

theorem serve_calls {req : Request} {calls : List (Sigma R)} {k : K}
    {next : R k → Program K R Response}
    (trace : (serve axum form port req).Trace calls (.call k next)) :
    ∃ op next', Asks axum req op ∧ (port.perform op).Trace calls (.call k next') := by
  by_cases asked : ∃ op, Asks axum req op
  · obtain ⟨op, asks⟩ := asked
    rw [serve_asked asks] at trace
    obtain ⟨next', trace⟩ := trace.of_map_call
    exact ⟨op, next', asks, trace⟩
  · obtain ⟨refusal, -, served⟩ :
        ∃ refusal, Refusal req refusal ∧ serve axum form port req = .done (refusal.to req.method) :=
      serve_unasked (not_exists.mp asked)
    rw [served] at trace
    cases trace

/-- **Serving at once.**  For every repo whose operations are programs of calls that act at
once, and in every run, with any number of requests under way and any of them dropped at
any point: the store and the replies are those of the calls made one after another, in
the order they were made; every response answers the one operation its request asks for,
which has made its calls, first to last, since the request came, or refuses a request
that asks for none; and no call is made but the one to which the operation comes that a
request under way asks for. -/
theorem interleaved (axum : Axum) (form : TextForm T) (port : Port (Program K R) T)
    (exec : (k : K) → StateM σ (R k)) (w w' : Threads ι K R Response σ)
    (es : List (Happening ι Request R Response)) (idle : ∀ p, w.thread p = .down)
    (run : Run (Serving axum form port exec) w es w') :
    Serially exec w.store (es.filterMap Happening.made) w'.store ∧
      (∀ before p r after, es = before ++ .respond p r :: after →
        ∃ req calls, Since p req before calls ∧ Explains axum form port req calls r) ∧
      ∀ before p k reply after, es = before ++ .call p ⟨k, reply⟩ :: after →
        ∃ req op calls next, Since p req before calls ∧ Asks axum req op ∧
          (port.perform op).Trace calls (.call k next) := by
  refine ⟨serial run, fun before p r after split => ?_, fun before p k reply after split => ?_⟩
  · rw [split] at run
    obtain ⟨req, calls, since, trace⟩ := responded (idle p) run
    exact ⟨req, calls, since, serve_responds trace⟩
  · rw [split] at run
    obtain ⟨req, calls, next, since, trace⟩ := called (idle p) run
    obtain ⟨op, next', asks, trace⟩ := serve_calls trace
    exact ⟨req, op, calls, next', since, asks, trace⟩

end Tasks

/-! ## Two health checks, one of them dropped -/

def getHealth : Request := { nopeRequest with path := "/health" }

/-- Two idle tasks over stores that are up. -/
def idleTasks : Threads Bool Ping Pinged Response Stores where
  store := storesUp
  thread _ := .down

/-- Two health checks, ping by ping; the client of the second goes away between its two. -/
def twoChecks : List (Happening Bool Request Pinged Response) :=
  [.receive false getHealth, .receive true getHealth, .call false ⟨.postgres, .ok ()⟩,
    .call true ⟨.postgres, .ok ()⟩, .drop true, .call false ⟨.mongo, .ok ()⟩]

/-- The report that both stores are up. -/
def bothUp : Response :=
  answer TextForm.verbatim (.health (healthReport "0.1.0" (.ok ()) (.ok ())))

/-- The pings are those of one store after another; the first check answers its request, and
the second had come to its ping. -/
theorem dropped_check_interleaved :
    Serially Stores.answer storesUp
        [⟨.postgres, .ok ()⟩, ⟨.postgres, .ok ()⟩, ⟨.mongo, .ok ()⟩] storesUp ∧
      (∃ req calls, Since false req twoChecks calls ∧
        Explains plainAxum .verbatim (storePort String "0.1.0") req calls bothUp) ∧
      ∃ req op calls next, Since true req (twoChecks.take 3) calls ∧ Asks plainAxum req op ∧
        ((storePort String "0.1.0").perform op).Trace calls (.call .postgres next) := by
  have program : serve plainAxum .verbatim (storePort String "0.1.0") getHealth =
      .call .postgres fun postgres => .call .mongo fun mongo =>
        .done ((answer .verbatim (.health (healthReport "0.1.0" postgres mongo))).to .get) := rfl
  have received : ∀ w : Threads Bool Ping Pinged Response Stores, ∀ p,
      (w.set p (.running (serve plainAxum .verbatim (storePort String "0.1.0") getHealth))).thread p =
        .running (.call .postgres fun postgres => .call .mongo fun mongo =>
          .done ((answer .verbatim (.health (healthReport "0.1.0" postgres mongo))).to .get)) :=
    fun w p => (w.set_thread_self p _).trans (congrArg Thread.running program)
  have run : ∃ w, Run (Serving plainAxum .verbatim (storePort String "0.1.0") Stores.answer) idleTasks
      (twoChecks ++ [.respond false bothUp]) w ∧ w.store = storesUp :=
    ⟨_, .cons (.receive getHealth rfl) <| .cons (.receive getHealth rfl) <|
      .cons (.call (received idleTasks false)) <| .cons (.call rfl) <| .cons (.drop rfl) <|
      .cons (.call rfl) <| .cons (.respond rfl) (.nil _), rfl⟩
  obtain ⟨w, run, same⟩ := run
  obtain ⟨serially, responses, calls⟩ := interleaved plainAxum .verbatim (storePort String "0.1.0")
    Stores.answer idleTasks w _ (fun _ => rfl) run
  rw [same] at serially
  exact ⟨serially, responses twoChecks false bothUp [] rfl,
    calls (twoChecks.take 3) true .postgres (.ok ()) _ rfl⟩

end CrewList.Server
