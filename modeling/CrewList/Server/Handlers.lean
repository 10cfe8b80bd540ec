/-
# CrewList.Server.Handlers -- the handlers of the routes

`routes/`.  A handler extracts, delegates to the repo and serializes (`handle`).  It is
written over a `Port`, so over the repo in any monad: over a repo whose operations take
effect at once it is a state change, and over one that awaits its stores a program.
Whether the calls of a program are made inside the handler or outside it is the same
(`handle_over`).
-/
import CrewList.Server.Http
import CrewList.Server.Repo

namespace CrewList.Server

open CrewList.Core
open CrewList.Theory
open CrewList.Theory.Serde

set_option autoImplicit false

section Handlers

variable {m : Type → Type} [Monad m] {T α β : Type}

/-- A handler's result as a response: `?` turned its error into an `ApiError`. -/
def respond (status : Nat) (encode : β → Json) : Except CrewError β → Response
  | .ok b => { status, body := some (encode b) }
  | .error e => apiError e

/-- Extract, delegate, serialize. -/
def handle (status : Nat) (encode : β → Json) (extracted : Except CrewError α)
    (operation : α → m (Except CrewError β)) : m Response :=
  match extracted with
  | .error rejection => return apiError rejection
  | .ok a => return respond status encode (← operation a)

variable (axum : Axum) (form : TextForm T) (port : Port m T)

/-- `POST /tasks` -/
def create (req : Request) : m Response :=
  handle 201 (CreatedTask.codec Json).encode
    (axum.appJson (CreateTaskRequest.codec Json).decode req) port.create

/-- `GET /tasks/{id}` -/
def get (segment : String) (req : Request) : m Response :=
  handle 200 (taskViewJson form).encode (axum.appPath segment req) port.get

/-- `GET /tasks` -/
def list (req : Request) : m Response :=
  handle 200 (taskListResponseJson form).encode (axum.appQuery ListQuery.decode req) port.list

/-- The two extractors of `delete`, in order. -/
def deleteArguments (segment : String) (req : Request) : Except CrewError (TaskId × Bool) := do
  let id ← axum.appPath segment req
  let query ← axum.appQuery DeleteQuery.decode req
  return (id, query.force)

/-- `DELETE /tasks/{id}` -/
def delete (segment : String) (req : Request) : m Response :=
  handle 200 (DeletedTask.codec Json).encode (deleteArguments axum segment req)
    fun (id, force) => port.delete id force

/-- `GET /health`, always 200. -/
def health : m Response := do
  return { status := 200, body := some ((HealthResponse.codec Json).encode (← port.health)) }

end Handlers

/-! ## The calls of a program -/

section Over

variable {m : Type → Type} [Monad m] [LawfulMonad m] {K : Type} {R : K → Type} {T α β : Type}

theorem handle_over (exec : (k : K) → m (R k)) {status : Nat} {encode : β → Json}
    {extracted : Except CrewError α} {operation : α → Program K R (Except CrewError β)} :
    (handle status encode extracted operation).runWith exec =
      handle status encode extracted fun a => (operation a).runWith exec := by
  cases extracted with
  | error e => rfl
  | ok a => exact Program.runWith_bind _ _

theorem health_over (exec : (k : K) → m (R k)) (port : Port (Program K R) T) :
    (health port).runWith exec = health (port.over exec) :=
  Program.runWith_bind _ _

theorem deleteArguments_error {axum : Axum} {segment : String} {req : Request} {e : CrewError}
    (failed : deleteArguments axum segment req = .error e) : e.code = .validation := by
  unfold deleteArguments at failed
  cases path : axum.appPath segment req with
  | error e' =>
      rw [path] at failed
      cases failed
      exact Axum.validated_error path
  | ok id =>
      cases query : axum.appQuery DeleteQuery.decode req with
      | error e' =>
          rw [path, query] at failed
          cases failed
          exact Axum.validated_error query
      | ok q =>
          rw [path, query] at failed
          cases failed

end Over

end CrewList.Server
