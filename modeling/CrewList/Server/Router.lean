/-
# CrewList.Server.Router -- the route table and the shape of errors

`serve` is the router over the handlers, with axum's own answers where the program
installs none: 404 for a path no route matches, 405 for a method a route does not list,
both with an empty body.  Over any port it is one program, with the calls made by the
port (`serve_over`).

A request is observed by serving it with a recording repo, which changes nothing else
(`observe_transparent`).  `observe_cases` is the route table as a rule: what holds of
every handler's run holds of every routed request.  `handle_recorded` says once what
a handler can do: refuse with a validation error and call nothing, or make its one
call and answer with what came back.  `error_shape_exact` is that everything that
reaches a handler fails in the project's error shape, and nothing else does.
-/
import CrewList.Server.Handlers

namespace CrewList.Server

open CrewList.Core
open CrewList.Theory
open CrewList.Theory.Serde

set_option autoImplicit false

/-! ## The route table -/

inductive Route where
  | health
  | tasks
  | task (segment : String)
  deriving DecidableEq

/-- `/tasks/{id}` captures one segment, not empty. -/
def matchRoute (path : String) : Option Route :=
  if path = "/health" then some .health
  else if path = "/tasks" then some .tasks
  else
    let segment := path.toList.drop "/tasks/".toList.length
    if "/tasks/".toList <+: path.toList ∧ segment ≠ [] ∧ '/' ∉ segment then
      some (.task (String.ofList segment))
    else none

section Serve

variable {m : Type → Type} [Monad m] {T : Type} (axum : Axum) (form : TextForm T) (port : Port m T)

/-- The handler of a route for a method. -/
def endpoint : Route → Method → Option (Request → m Response)
  | .health, .get => some fun _ => health port
  | .tasks, .post => some (create axum port)
  | .tasks, .get => some (list axum form port)
  | .task segment, .get => some (get axum form port segment)
  | .task segment, .delete => some (delete axum port segment)
  | _, _ => none

/-- `router(state)`.  HEAD is answered by the GET handler without its body. -/
def serve (req : Request) : m Response :=
  match matchRoute req.path with
  | none => return { status := 404, body := none }
  | some route =>
      match req.method with
      | .head =>
          match endpoint axum form port route .get with
          | none => return { status := 405, body := none }
          | some handler => return { ← handler req with body := none }
      | method =>
          match endpoint axum form port route method with
          | none => return { status := 405, body := none }
          | some handler => handler req

end Serve

/-! ## The router as a program -/

section Programs

variable {m : Type → Type} [Monad m] [LawfulMonad m] {K : Type} {R : K → Type} {T : Type}
  (axum : Axum) (form : TextForm T) (port : Port (Program K R) T) (exec : (k : K) → m (R k))

theorem endpoint_over (route : Route) (method : Method) :
    endpoint axum form (port.over exec) route method =
      (endpoint axum form port route method).map fun handler req =>
        (handler req).runWith exec := by
  cases route <;> cases method <;> first | rfl | refine congrArg some (funext fun req => ?_)
  case health.get => exact (health_over exec port).symm
  case tasks.post => exact (handle_over exec).symm
  case tasks.get => exact (handle_over exec).symm
  case task.get => exact (handle_over exec).symm
  case task.delete => exact (handle_over exec).symm

/-- **The router is one program**: made by the port or by the program the port is given, the
calls are the same. -/
theorem serve_over (req : Request) :
    serve axum form (port.over exec) req = (serve axum form port req).runWith exec := by
  unfold serve
  cases matchRoute req.path with
  | none => rfl
  | some route =>
      simp only [endpoint_over]
      cases req.method with
      | head =>
          cases endpoint axum form port route .get with
          | none => rfl
          | some handler =>
              show _ = (handler req >>= fun r => pure { r with body := none }).runWith exec
              rw [Program.runWith_bind]
              rfl
      | _ =>
          dsimp only
          cases endpoint axum form port route _ <;> rfl

/-- Over any port it is the program that only asks, with what it asks for done. -/
theorem serve_asking (axum : Axum) (form : TextForm T) (port : Port m T) (req : Request) :
    serve axum form port req = (serve axum form (asking T) req).runWith port.perform := by
  rw [← serve_over, asking_over]

end Programs

/-! ## Paths -/

theorem matchRoute_eq_health {path : String} :
    matchRoute path = some .health ↔ path = "/health" := by
  refine ⟨fun matched => ?_, fun same => by rw [same]; decide⟩
  simp only [matchRoute] at matched
  split at matched
  · assumption
  · split at matched
    · cases matched
    · rw [Option.ite_none_right_eq_some] at matched
      cases matched.2

theorem matchRoute_eq_tasks {path : String} :
    matchRoute path = some .tasks ↔ path = "/tasks" := by
  refine ⟨fun matched => ?_, fun same => by rw [same]; decide⟩
  simp only [matchRoute] at matched
  split at matched
  · cases matched
  · split at matched
    · assumption
    · rw [Option.ite_none_right_eq_some] at matched
      cases matched.2

theorem collection_toList : "/tasks/".toList = ['/', 't', 'a', 's', 'k', 's', '/'] := by decide

/-- A path under the collection is that of one task exactly when one segment follows. -/
theorem matchRoute_eq_task {path segment : String} :
    matchRoute path = some (.task segment) ↔
      path = "/tasks/" ++ segment ∧ segment ≠ "" ∧ '/' ∉ segment.toList := by
  constructor
  · intro matched
    simp only [matchRoute] at matched
    by_cases isHealth : path = "/health"
    · rw [if_pos isHealth] at matched
      cases matched
    by_cases isTasks : path = "/tasks"
    · rw [if_neg isHealth, if_pos isTasks] at matched
      cases matched
    rw [if_neg isHealth, if_neg isTasks, Option.ite_none_right_eq_some] at matched
    obtain ⟨⟨⟨rest, split⟩, nonempty, single⟩, matched⟩ := matched
    rw [← split, List.drop_left] at nonempty single matched
    cases matched
    refine ⟨String.toList_injective ?_, ?_, by rwa [String.toList_ofList]⟩
    · rw [String.toList_append, ← split, collection_toList]
      simp
    · rintro empty
      exact nonempty (by simpa using congrArg String.toList empty)
  · rintro ⟨rfl, nonempty, single⟩
    have notHealth : "/tasks/" ++ segment ≠ "/health" := by
      intro same
      have := congrArg String.toList same
      rw [String.toList_append, collection_toList] at this
      simp at this
    have notTasks : "/tasks/" ++ segment ≠ "/tasks" := by
      intro same
      have := congrArg (fun s => s.toList.length) same
      simp only [String.toList_append, List.length_append, collection_toList] at this
      have short : "/tasks".toList.length = 6 := by decide
      simp only [List.length_cons, List.length_nil, short] at this
      omega
    have rest : segment.toList ≠ [] := by
      intro empty
      exact nonempty (String.toList_injective (by simpa using empty))
    simp only [matchRoute, if_neg notHealth, if_neg notTasks, String.toList_append, List.drop_left]
    rw [if_pos ⟨List.prefix_append .., rest, single⟩, String.ofList_toList]

/-- A path and method of the route table. -/
def Routed (req : Request) : Prop :=
  (req.path = "/health" ∧ req.method = .get) ∨
    (req.path = "/tasks" ∧ (req.method = .post ∨ req.method = .get)) ∨
    ∃ segment, req.path = "/tasks/" ++ segment ∧ segment ≠ "" ∧ '/' ∉ segment.toList ∧
      (req.method = .get ∨ req.method = .delete)

/-! ## What a handler does -/

section Results

variable {σ T α β : Type}

/-- Serve one request, with a record of the operations called: the response, the
repo's state and the record. -/
def observe (axum : Axum) (form : TextForm T) (repo : TaskRepo σ T) (req : Request) (s : σ) :
    Response × σ × List (Exchange T) :=
  (serve axum form repo.recorded req).run (s, [])

/-- **Recording changes nothing else**: what is observed is what the repo itself is
served. -/
theorem observe_transparent (axum : Axum) (form : TextForm T) (repo : TaskRepo σ T)
    (req : Request) (s : σ) :
    ((observe axum form repo req s).1, (observe axum form repo req s).2.1) =
      (serve axum form repo req).run s := by
  rw [observe, serve_asking axum form repo.recorded, serve_asking axum form repo]
  exact transparent_runWith repo _ s []

/-- The request was refused with a validation error and nothing was called. -/
def Refused (result : Response × σ × List (Exchange T)) : Prop :=
  result.2.2 = [] ∧ result.1.status = 400 ∧ ∃ e, e.code = .validation ∧ IsErrorOf e result.1

variable {axum : Axum} {form : TextForm T} {repo : TaskRepo σ T}

/-- **A handler over a recording repo.**  It refuses, calling nothing, or makes its one
call and answers with the reply. -/
theorem handle_recorded {status : Nat} {encode : β → Json} {extracted : Except CrewError α}
    {operation : α → StateM σ (Except CrewError β)}
    (exchange : α → Except CrewError β → Exchange T) (s : σ) :
    (∃ e, extracted = .error e ∧
        (handle status encode extracted fun a => record (exchange a) (operation a)).run (s, []) =
          (apiError e, s, [])) ∨
      ∃ a, extracted = .ok a ∧
        (handle status encode extracted fun a => record (exchange a) (operation a)).run (s, []) =
          (respond status encode ((operation a).run s).1, ((operation a).run s).2,
            [exchange a ((operation a).run s).1]) := by
  cases extracted with
  | error e => exact .inl ⟨e, rfl, rfl⟩
  | ok a => exact .inr ⟨a, rfl, rfl⟩

/-- **What a handler calls.**  Where `P` is what extraction succeeds with: its operation
on such a value, once, or nothing, and then the request is refused. -/
theorem handle_exact {status : Nat} {encode : β → Json} {extracted : Except CrewError α}
    {operation : α → StateM σ (Except CrewError β)} {P : α → Prop}
    (exchange : α → Except CrewError β → Exchange T)
    (injective : ∀ {a b r r'}, exchange a r = exchange b r' → a = b)
    (refused : ∀ e, extracted = .error e → e.code = .validation)
    (extracts : ∀ a, extracted = .ok a ↔ P a) (s : σ) :
    let result := (handle status encode extracted
      fun a => record (exchange a) (operation a)).run (s, [])
    (∀ a, (∃ reply, result.2.2 = [exchange a reply]) ↔ P a) ∧
      ((∀ a, ¬ P a) → Refused result) := by
  rcases handle_recorded exchange s with ⟨e, failed, run⟩ | ⟨a, succeeded, run⟩
  · rw [run]
    refine ⟨fun a => ⟨?_, fun holds => ?_⟩, fun _ => ?_⟩
    · rintro ⟨reply, called⟩
      cases called
    · have succeeded := (extracts a).mpr holds
      rw [failed] at succeeded
      cases succeeded
    · have validation := refused e failed
      refine ⟨rfl, ?_, e, validation, apiError_isErrorOf e⟩
      show statusFor e.code = 400
      rw [validation]
      rfl
  · rw [run]
    have holds := (extracts a).mp succeeded
    refine ⟨fun b => ⟨?_, fun other => ?_⟩, fun never => absurd holds (never a)⟩
    · rintro ⟨reply, called⟩
      rwa [← injective (List.singleton_injective called)]
    · have same := succeeded.symm.trans ((extracts b).mpr other)
      cases same
      exact ⟨_, rfl⟩

theorem observe_create {req : Request} (method : req.method = .post) (path : req.path = "/tasks")
    (s : σ) : observe axum form repo req s = (create axum repo.recorded req).run (s, []) := by
  simp only [observe, serve, matchRoute_eq_tasks.mpr path, method]
  rfl

theorem observe_list {req : Request} (method : req.method = .get) (path : req.path = "/tasks")
    (s : σ) : observe axum form repo req s = (list axum form repo.recorded req).run (s, []) := by
  simp only [observe, serve, matchRoute_eq_tasks.mpr path, method]
  rfl

theorem observe_get {req : Request} {segment : String} (method : req.method = .get)
    (path : matchRoute req.path = some (.task segment)) (s : σ) :
    observe axum form repo req s = (get axum form repo.recorded segment req).run (s, []) := by
  simp only [observe, serve, path, method]
  rfl

theorem observe_delete {req : Request} {segment : String} (method : req.method = .delete)
    (path : matchRoute req.path = some (.task segment)) (s : σ) :
    observe axum form repo req s = (delete axum repo.recorded segment req).run (s, []) := by
  simp only [observe, serve, path, method]
  rfl

theorem observe_health {req : Request} (method : req.method = .get) (path : req.path = "/health")
    (s : σ) : observe axum form repo req s = (health repo.recorded).run (s, []) := by
  simp only [observe, serve, matchRoute_eq_health.mpr path, method]
  rfl

/-- **One case for each entry of the route table.**  What holds of every handler's run
holds of every routed request. -/
theorem observe_cases {P : Response × σ × List (Exchange T) → Prop} {req : Request}
    (routed : Routed req) (s : σ)
    (onHealth : req.path = "/health" → P ((health repo.recorded).run (s, [])))
    (onCreate : req.path = "/tasks" → P ((create axum repo.recorded req).run (s, [])))
    (onList : req.path = "/tasks" → P ((list axum form repo.recorded req).run (s, [])))
    (onGet : ∀ segment, req.path = "/tasks/" ++ segment →
      P ((get axum form repo.recorded segment req).run (s, [])))
    (onDelete : ∀ segment, req.path = "/tasks/" ++ segment →
      P ((delete axum repo.recorded segment req).run (s, []))) :
    P (observe axum form repo req s) := by
  rcases routed with ⟨path, method⟩ | ⟨path, method | method⟩ |
      ⟨segment, path, nonempty, single, method | method⟩
  · rw [observe_health method path]
    exact onHealth path
  · rw [observe_create method path]
    exact onCreate path
  · rw [observe_list method path]
    exact onList path
  · rw [observe_get method (matchRoute_eq_task.mpr ⟨path, nonempty, single⟩)]
    exact onGet segment path
  · rw [observe_delete method (matchRoute_eq_task.mpr ⟨path, nonempty, single⟩)]
    exact onDelete segment path

/-- The request failed with `e`: it was refused before any call, or its one call
replied `e`. -/
def FailedWith (log : List (Exchange T)) (e : CrewError) : Prop :=
  (log = [] ∧ e.code = .validation) ∨ ∃ exchange, log = [exchange] ∧ exchange.error = some e

/-- If the response is not a success, it is the error object of the failure. -/
def ErrorShaped (r : Response) (log : List (Exchange T)) : Prop :=
  ¬ r.isSuccess → ∃ e, FailedWith log e ∧ IsErrorOf e r

theorem handle_errorShaped {status : Nat} {encode : β → Json} {extracted : Except CrewError α}
    {operation : α → StateM σ (Except CrewError β)}
    (exchange : α → Except CrewError β → Exchange T)
    (success : 200 ≤ status ∧ status < 300)
    (refused : ∀ e, extracted = .error e → e.code = .validation)
    (replied : ∀ a e, (exchange a (.error e)).error = some e) (s : σ) :
    let result := (handle status encode extracted
      fun a => record (exchange a) (operation a)).run (s, [])
    ErrorShaped result.1 result.2.2 := by
  rcases handle_recorded exchange s with ⟨e, failed, run⟩ | ⟨a, -, run⟩
  · rw [run]
    exact fun _ => ⟨e, .inl ⟨rfl, refused e failed⟩, apiError_isErrorOf e⟩
  · rw [run]
    cases reply : ((operation a).run s).1 with
    | ok b => exact fun failed => absurd success failed
    | error e => exact fun _ => ⟨e, .inr ⟨_, rfl, replied a e⟩, apiError_isErrorOf e⟩

/-- Whatever a routed request is answered has the error shape. -/
theorem routed_errorShaped (req : Request) (routed : Routed req) (s : σ) :
    let result := observe axum form repo req s
    ErrorShaped result.1 result.2.2 := by
  apply observe_cases (P := fun result => ErrorShaped result.1 result.2.2) routed s
  · exact fun _ failed => absurd ⟨Nat.le_refl 200, show 200 < 300 by omega⟩ failed
  · exact fun _ => handle_errorShaped Exchange.create (by omega) (fun _ => Axum.validated_error)
      (fun _ _ => rfl) s
  · exact fun _ => handle_errorShaped Exchange.list (by omega) (fun _ => Axum.validated_error)
      (fun _ _ => rfl) s
  · exact fun _ _ => handle_errorShaped Exchange.get (by omega) (fun _ => Axum.validated_error)
      (fun _ _ => rfl) s
  · exact fun _ _ => handle_errorShaped (fun a : TaskId × Bool => Exchange.delete a.1 a.2)
      (by omega) (fun _ => deleteArguments_error) (fun _ _ => rfl) s

/-- A matched route with a handler for the method is in the table. -/
theorem routed_of_endpoint {req : Request} {route : Route}
    (matched : matchRoute req.path = some route)
    (listed : endpoint axum form repo route req.method ≠ none) : Routed req := by
  cases route with
  | health =>
      have path := matchRoute_eq_health.mp matched
      cases method : req.method with
      | get => exact .inl ⟨path, method⟩
      | _ =>
          rw [method] at listed
          exact absurd rfl listed
  | tasks =>
      have path := matchRoute_eq_tasks.mp matched
      cases method : req.method with
      | get => exact .inr (.inl ⟨path, .inr method⟩)
      | post => exact .inr (.inl ⟨path, .inl method⟩)
      | _ =>
          rw [method] at listed
          exact absurd rfl listed
  | task segment =>
      obtain ⟨path, nonempty, single⟩ := matchRoute_eq_task.mp matched
      cases method : req.method with
      | get => exact .inr (.inr ⟨segment, path, nonempty, single, .inl method⟩)
      | delete => exact .inr (.inr ⟨segment, path, nonempty, single, .inr method⟩)
      | _ =>
          rw [method] at listed
          exact absurd rfl listed

/-- axum's own answers have no body. -/
theorem unrouted_empty (req : Request) (unrouted : ¬ Routed req) (notHead : req.method ≠ .head)
    (s : σ) : ∃ status, (status = 404 ∨ status = 405) ∧
      (serve axum form repo req).run s = ({ status, body := none }, s) := by
  cases matched : matchRoute req.path with
  | none => exact ⟨404, .inl rfl, by simp only [serve, matched]; rfl⟩
  | some route =>
      have unlisted : endpoint axum form repo route req.method = none := by
        by_contra listed
        exact unrouted (routed_of_endpoint matched listed)
      refine ⟨405, .inr rfl, ?_⟩
      cases method : req.method with
      | head => exact absurd method notHead
      | _ =>
          rw [method] at unlisted
          simp only [serve, matched, method, unlisted]
          rfl

/-- **When a failure has the error shape.**  For every request but HEAD and every
repo: a response that is not a success is the error object of what failed, under its
status, if and only if the path and method are in the route table. -/
theorem error_shape_exact (axum : Axum) (form : TextForm T) (repo : TaskRepo σ T)
    (req : Request) (s : σ) (notHead : req.method ≠ .head) :
    let result := observe axum form repo req s
    ErrorShaped result.1 result.2.2 ↔ Routed req := by
  constructor
  · intro shaped
    by_contra unrouted
    obtain ⟨status, fallback, run⟩ :=
      @unrouted_empty _ T axum form repo.recorded req unrouted notHead (s, [])
    rw [observe, run] at shaped
    obtain ⟨e, -, v, body, present, -⟩ := shaped (by
      rintro ⟨-, success⟩
      simp only at success
      omega)
    cases present
  · exact fun routed => routed_errorShaped req routed s

end Results

/-! ## A path no route matches -/

/-- An HTTP stack for a request without a body: no escapes, no parameters. -/
def plainAxum : Axum := tabledAxum [] []

/-- Stores that are up. -/
def storesUp : Stores where
  postgres := .ok ()
  mongo := .ok ()

def nopeRequest : Request where
  method := .get
  path := "/nope"
  query := none
  headers := []
  body := some []

/-- `GET /nope` is answered 404 with no body. -/
theorem unmatched_path_unshaped :
    ¬ ∀ (axum : Axum) (form : TextForm String) (repo : TaskRepo Stores String) (req : Request)
      (s : Stores), req.method ≠ .head →
        let result := observe axum form repo req s
        ErrorShaped result.1 result.2.2 := by
  intro claimed
  have shaped := claimed plainAxum .verbatim (storeRepo String "0.1.0") nopeRequest storesUp
    (by decide)
  obtain ⟨e, -, v, body, present, -⟩ := shaped (by decide)
  cases present

/-- `GET /tasks` is in the route table, and its 501 has the shape. -/
theorem list_unimplemented_shaped :
    let result := observe plainAxum .verbatim (storeRepo String "0.1.0")
      { nopeRequest with path := "/tasks" } storesUp
    ErrorShaped result.1 result.2.2 :=
  (error_shape_exact plainAxum .verbatim (storeRepo String "0.1.0") _ _ (by decide)).mpr
    (.inr (.inl ⟨rfl, .inr rfl⟩))

end CrewList.Server
