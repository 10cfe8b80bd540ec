/-
# CrewList.Server.Production -- the server as it is built, ping by ping

`StoreRepo` has nothing to do for most operations but to say that they are not implemented;
`health` pings Postgres and then Mongo, and between the two other requests are served
and the stores come and go.  Here it is served as it is in the code, over the pings
(`storePort`), for stores that answer a ping in any way at all; over stores that stay as
they are it is the router over `storeRepo` (`production_steady`).

`production_exact` is everything that can be observed of it: which pings are made and
for whom, what every response says, and that nothing but a health report is a success.
The two halves of a report are of different moments, and stores that are never up
together can be reported as up (`flickering_stores_reported_up`).
-/
import CrewList.Server.Serving

namespace CrewList.Server

open CrewList.Core
open CrewList.Theory
open CrewList.Theory.Serde

set_option autoImplicit false

/-- What an operation does that is not implemented. -/
def Operation.unimplemented : Operation → Option String
  | .create _ => some "create task"
  | .get _ => some "get task"
  | .list _ => some "list tasks"
  | .delete _ _ => some "delete task"
  | .health => none

/-! ## Requests served at once -/

section Requests

variable {ι σ T : Type} [DecidableEq ι] (axum : Axum) (form : TextForm T) (version : String)
  (ping : Ping → StateM σ (Except StoreError Unit))

/-- The handler of a request over the adapter, stopped at each ping. -/
def production (req : Request) : Program Ping Pinged Response :=
  serve axum form (storePort T version) req

/-- Over stores that stay as they are, the pings of a request are its operation. -/
theorem production_steady (req : Request) :
    (production axum form version req).runWith Stores.answer =
      serve axum form (storeRepo T version) req := by
  rw [production, storeRepo, serve_over]

/-- Any number of requests over stores that answer pings in this way. -/
abbrev Producing :=
  ServeStep (ι := ι) (R := Pinged) ping (production axum form version)

/-- What a response comes of, with the pings made for it. -/
inductive Produces (req : Request) : List (Sigma Pinged) → Response → Prop where
  | health {postgres mongo : Except StoreError Unit} (asks : Asks axum req .health) :
      Produces req [⟨.postgres, postgres⟩, ⟨.mongo, mongo⟩]
        ((answer form (.health (healthReport version postgres mongo))).to req.method)
  | unimplemented {op : Operation} {what : String} (asks : Asks axum req op)
      (named : op.unimplemented = some what) :
      Produces req [] ((apiError (.unimplemented what)).to req.method)
  | refused {refusal : Response} (unasked : ∀ op, ¬ Asks axum req op)
      (refused : Refusal req refusal) : Produces req [] (refusal.to req.method)

variable {axum form version ping}

theorem Refusal.not_success {req : Request} {r : Response} (refusal : Refusal req r) :
    ¬ r.isSuccess := by
  by_cases known : KnownPath req.path
  · by_cases offered : Offered req
    · rw [Response.isSuccess, (refusal.invalid offered).1]
      omega
    · rw [refusal.notAllowed known offered, Response.isSuccess]
      simp
  · rw [refusal.notFound known, Response.isSuccess]
    simp

theorem Response.to_isSuccess (r : Response) (method : Method) :
    (r.to method).isSuccess ↔ r.isSuccess := by
  rw [Response.isSuccess, Response.isSuccess, r.to_status]

/-- Nothing but a health report is a success. -/
theorem Produces.success {req : Request} {pings : List (Sigma Pinged)} {r : Response}
    (produces : Produces axum form version req pings r) :
    r.isSuccess ↔ Asks axum req .health := by
  cases produces with
  | health asks =>
      refine iff_of_true ((Response.to_isSuccess ..).mpr ?_) asks
      simp [answer, Response.isSuccess]
  | unimplemented asks named =>
      refine iff_of_false (fun success => ?_) fun health => ?_
      · exact apiError_not_success _ ((Response.to_isSuccess ..).mp success)
      · rw [asks.unique health] at named
        cases named
  | refused unasked refused =>
      refine iff_of_false (fun success => ?_) (unasked _)
      exact refused.not_success ((Response.to_isSuccess ..).mp success)

variable (axum form version) in
/-- The handler pings twice, or not at all. -/
theorem production_cases (req : Request) :
    (Asks axum req .health ∧ production axum form version req =
        .call .postgres fun postgres => .call .mongo fun mongo =>
          .done ((answer form (.health (healthReport version postgres mongo))).to req.method)) ∨
      ∃ r, Produces axum form version req [] r ∧ production axum form version req = .done r := by
  by_cases asked : ∃ op, Asks axum req op
  · obtain ⟨op, asks⟩ := asked
    have served : production axum form version req =
        (fun reply => (answer form (.of op reply)).to req.method) <$>
          (storePort T version).perform op := serve_asked asks
    cases op with
    | health => exact .inl ⟨asks, served⟩
    | _ => exact .inr ⟨_, .unimplemented asks rfl, served⟩
  · have unasked := not_exists.mp asked
    obtain ⟨refusal, refused, served⟩ :
        ∃ r, Refusal req r ∧ production axum form version req = pure (r.to req.method) :=
      serve_unasked unasked
    exact .inr ⟨_, .refused unasked refused, served⟩

theorem production_responds {req : Request} {pings : List (Sigma Pinged)} {r : Response}
    (trace : (production axum form version req).Trace pings (.done r)) :
    Produces axum form version req pings r := by
  rcases production_cases axum form version req with ⟨asks, program⟩ | ⟨r', produces, program⟩
  · rw [program] at trace
    cases trace with
    | call rest =>
        cases rest with
        | call rest =>
            cases rest
            exact .health asks
  · rw [program] at trace
    cases trace
    exact produces

/-- A ping is the first of a health request, or the second. -/
theorem production_calls {req : Request} {pings : List (Sigma Pinged)} {k : Ping}
    {next : Except StoreError Unit → Program Ping Pinged Response}
    (trace : (production axum form version req).Trace pings (.call k next)) :
    Asks axum req .health ∧
      ((k = .postgres ∧ pings = []) ∨
        k = .mongo ∧ ∃ postgres, pings = [⟨.postgres, postgres⟩]) := by
  rcases production_cases axum form version req with ⟨asks, program⟩ | ⟨r', produces, program⟩
  · rw [program] at trace
    refine ⟨asks, ?_⟩
    cases trace with
    | nil => exact .inl ⟨rfl, rfl⟩
    | call rest =>
        cases rest with
        | nil => exact .inr ⟨rfl, _, rfl⟩
        | call rest => cases rest
  · rw [program] at trace
    cases trace

/-- **Everything this build does.**  In every run, with any number of requests under way and
dropped at any point, over stores that answer each ping in any way: every response is a
health report of what the stores answered since its request came, Postgres first, or
says that what is asked for is not implemented, or refuses; it is a success exactly if
its request asks for health; and no ping is made but one that a health request under way
comes to next. -/
theorem production_exact (axum : Axum) (form : TextForm T) (version : String)
    (ping : Ping → StateM σ (Except StoreError Unit)) (w w' : Threads ι Ping Pinged Response σ)
    (es : List (Happening ι Request Pinged Response)) (idle : ∀ p, w.thread p = .down)
    (run : Run (Producing axum form version ping) w es w') :
    (∀ before p r after, es = before ++ .respond p r :: after →
        ∃ req pings, Since p req before pings ∧ Produces axum form version req pings r ∧
          (r.isSuccess ↔ Asks axum req .health)) ∧
      ∀ before p k reply after, es = before ++ .call p ⟨k, reply⟩ :: after →
        ∃ req pings, Since p req before pings ∧ Asks axum req .health ∧
          ((k = .postgres ∧ pings = []) ∨
            k = .mongo ∧ ∃ postgres, pings = [⟨.postgres, postgres⟩]) := by
  refine ⟨fun before p r after split => ?_, fun before p k reply after split => ?_⟩
  · rw [split] at run
    obtain ⟨req, pings, since, trace⟩ := responded (idle p) run
    have produces := production_responds trace
    exact ⟨req, pings, since, produces, produces.success⟩
  · rw [split] at run
    obtain ⟨req, pings, next, since, trace⟩ := called (idle p) run
    exact ⟨req, pings, since, production_calls trace⟩

end Requests

/-- Stores of which each goes down as it answers, and the other comes up. -/
def flickering : Ping → StateM Stores (Except StoreError Unit)
  | .postgres => fun stores =>
      (stores.postgres, { postgres := .error (.query "postgres" "closed"), mongo := .ok () })
  | .mongo => fun stores =>
      (stores.mongo, { postgres := .ok (), mongo := .error (.query "mongo" "closed") })

/-- One idle task over them, Postgres up. -/
def flickeringStores : Threads Unit Ping Pinged Response Stores where
  store := { postgres := .ok (), mongo := .error (.query "mongo" "closed") }
  thread _ := .down

/-- A health request, and its pings. -/
def flickeringPings : List (Happening Unit Request Pinged Response) :=
  [.receive () getHealth, .call () ⟨.postgres, .ok ()⟩, .call () ⟨.mongo, .ok ()⟩]

/-- Never up together, they are reported as up. -/
theorem flickering_stores_reported_up :
    (∀ k stores, ((flickering k).run stores).2.postgres ≠ .ok () ∨
        ((flickering k).run stores).2.mongo ≠ .ok ()) ∧
      ∃ req pings, Since () req flickeringPings pings ∧
        Produces plainAxum TextForm.verbatim "0.1.0" req pings bothUp ∧
        (bothUp.isSuccess ↔ Asks plainAxum req .health) := by
  refine ⟨fun k stores => ?_, ?_⟩
  · cases k with
    | postgres => exact .inl fun up => by cases up
    | mongo => exact .inr fun up => by cases up
  · have program : production plainAxum TextForm.verbatim "0.1.0" getHealth =
        .call .postgres fun postgres => .call .mongo fun mongo =>
          .done ((answer .verbatim (.health (healthReport "0.1.0" postgres mongo))).to .get) := rfl
    have started := (Threads.set_thread_self flickeringStores () _).trans
      (congrArg Thread.running program)
    have run : Run (Producing plainAxum TextForm.verbatim "0.1.0" flickering) flickeringStores
        (flickeringPings ++ [.respond () bothUp]) _ :=
      .cons (.receive getHealth rfl) (.cons (.call started)
        (.cons (.call (Threads.set_thread_self ..))
          (.cons (.respond (Threads.set_thread_self ..)) (.nil _))))
    exact (production_exact plainAxum .verbatim "0.1.0" flickering flickeringStores _ _
      (fun _ => rfl) run).1 _ _ _ _ rfl

end CrewList.Server
