/-
# CrewList.Server.Testkit -- the repo the tests drive the router with

`FakeRepo` returns what a test tells it to and records what it saw; a configured error is
consumed by the first call that reaches it.  Every field of it is behind a `Mutex` of its
own, locked for one statement (`Access`), and a clone shares them all: with requests
served at once, calls come between the record of a call and its taking of the error.

`fake_exact` is what a test may rest on all the same.  What is recorded is what was asked
for, in the order of the records; what the test configured stays; the error is taken
once; and every response is the error its request took, or what the test configured.
That the call recorded first is the one that fails is not among it
(`second_delete_takes_error`).
-/
import CrewList.Server.Serving

namespace CrewList.Server

open CrewList.Core
open CrewList.Theory
open CrewList.Theory.Serde

set_option autoImplicit false

/-! ## The double -/

/-- `Inner`; each field is a `Mutex`. -/
structure Inner (T : Type) where
  createdId : Option TaskId
  taskView : Option (TaskView T)
  tasks : Option (List (Core.Task T))
  deleted : Option DeletedTask
  health : Option HealthResponse
  error : Option CrewError
  creates : List CreateTaskRequest
  gets : List TaskId
  lists : List ListQuery
  deletes : List (TaskId × Bool)

def allOkHealth : HealthResponse where
  server := .okWithVersion "0.1.0"
  postgres := .healthy
  mongo := .healthy

namespace FakeRepo

variable {T : Type}

def new : Inner T where
  createdId := none
  taskView := none
  tasks := none
  deleted := none
  health := none
  error := none
  creates := []
  gets := []
  lists := []
  deletes := []

def failing (fake : Inner T) (error : CrewError) : Inner T := { fake with error := some error }

/-- A statement of the double, by the `Mutex` it locks: it records a call, takes the error or
reads what is configured. -/
inductive Access where
  | creates (req : CreateTaskRequest)
  | gets (id : TaskId)
  | lists (query : ListQuery)
  | deletes (id : TaskId) (force : Bool)
  | error
  | createdId | taskView | tasks | deleted | health

/-- What the statement yields. -/
def Accessed (T : Type) : Access → Type
  | .creates _ | .gets _ | .lists _ | .deletes _ _ => Unit
  | .error => Option CrewError
  | .createdId => Option TaskId
  | .taskView => Option (TaskView T)
  | .tasks => Option (List (Core.Task T))
  | .deleted => Option DeletedTask
  | .health => Option HealthResponse

/-- What the statement does while it holds the lock. -/
def access : (a : Access) → StateM (Inner T) (Accessed T a)
  | .creates req => fun fake => ((), { fake with creates := fake.creates ++ [req] })
  | .gets id => fun fake => ((), { fake with gets := fake.gets ++ [id] })
  | .lists query => fun fake => ((), { fake with lists := fake.lists ++ [query] })
  | .deletes id force => fun fake => ((), { fake with deletes := fake.deletes ++ [(id, force)] })
  | .error => fun fake => (fake.error, { fake with error := none })
  | .createdId => fun fake => (fake.createdId, fake)
  | .taskView => fun fake => (fake.taskView, fake)
  | .tasks => fun fake => (fake.tasks, fake)
  | .deleted => fun fake => (fake.deleted, fake)
  | .health => fun fake => (fake.health, fake)

/-- A program of such statements. -/
abbrev Statements (T α : Type) := Program Access (Accessed T) α

def takeError : Statements T (Option CrewError) := .request (R := Accessed T) .error

/-- Every method but `health`: record the call, fail with the error if there is one, and
otherwise answer with what is configured. -/
def answering {α : Type} (call configured : Access)
    (answer : Accessed T configured → Except CrewError α) : Statements T (Except CrewError α) := do
  let _ ← .request (R := Accessed T) call
  match ← takeError with
  | some err => return .error err
  | none => return answer (← .request (R := Accessed T) configured)

/-- `Option::ok_or` of `NotFound` -/
def orNotFound {α : Type} (id : TaskId) : Option α → Except CrewError α
  | some a => .ok a
  | none => .error (.notFound id)

def create (req : CreateTaskRequest) : Statements T (Except CrewError CreatedTask) :=
  answering (.creates req) .createdId fun id : Option TaskId => .ok { id := id.getD 1 }

def get (id : TaskId) : Statements T (Except CrewError (TaskView T)) :=
  answering (.gets id) .taskView (orNotFound id)

def list (query : ListQuery) : Statements T (Except CrewError (TaskListResponse T)) :=
  answering (.lists query) .tasks fun tasks : Option (List (Core.Task T)) =>
    .ok { tasks := tasks.getD [] }

def delete (id : TaskId) (force : Bool) : Statements T (Except CrewError DeletedTask) :=
  answering (.deletes id force) .deleted (orNotFound id)

def health : Statements T HealthResponse := do
  let health : Option HealthResponse ← .request (R := Accessed T) .health
  return health.getD allOkHealth

/-- `impl TaskRepo for FakeRepo` -/
def port (T : Type) : Port (Program Access (Accessed T)) T := { create, get, list, delete, health }

def lastCreate (fake : Inner T) : Option CreateTaskRequest := fake.creates.getLast?

def lastGet (fake : Inner T) : Option TaskId := fake.gets.getLast?

def lastList (fake : Inner T) : Option ListQuery := fake.lists.getLast?

def lastDelete (fake : Inner T) : Option (TaskId × Bool) := fake.deletes.getLast?

/-! ## One statement -/

/-- The operation recorded, if it is a record. -/
def recorded : Access → Option Operation
  | .creates req => some (.create req)
  | .gets id => some (.get id)
  | .lists query => some (.list query)
  | .deletes id force => some (.delete id force)
  | _ => none

/-- What there was to take, if the error was. -/
def taken : Sigma (Accessed T) → Option (Option CrewError)
  | ⟨.error, err⟩ => some err
  | _ => none

/-- What is configured is what is read. -/
def Truthful (fake : Inner T) : Sigma (Accessed T) → Prop
  | ⟨.createdId, id⟩ => id = fake.createdId
  | ⟨.taskView, view⟩ => view = fake.taskView
  | ⟨.tasks, tasks⟩ => tasks = fake.tasks
  | ⟨.deleted, deleted⟩ => deleted = fake.deleted
  | ⟨.health, health⟩ => health = fake.health
  | _ => True

def asCreate : Operation → Option CreateTaskRequest
  | .create request => some request
  | _ => none

def asGet : Operation → Option TaskId
  | .get id => some id
  | _ => none

def asList : Operation → Option ListQuery
  | .list query => some query
  | _ => none

def asDelete : Operation → Option (TaskId × Bool)
  | .delete id force => some (id, force)
  | _ => none

/-- The records of some operations, in order, in a double that is configured as it was. -/
structure Records (fake : Inner T) (ops : List Operation) (fake' : Inner T) : Prop where
  createdId : fake'.createdId = fake.createdId
  taskView : fake'.taskView = fake.taskView
  tasks : fake'.tasks = fake.tasks
  deleted : fake'.deleted = fake.deleted
  health : fake'.health = fake.health
  creates : fake'.creates = fake.creates ++ ops.filterMap asCreate
  gets : fake'.gets = fake.gets ++ ops.filterMap asGet
  lists : fake'.lists = fake.lists ++ ops.filterMap asList
  deletes : fake'.deletes = fake.deletes ++ ops.filterMap asDelete

theorem records_access (a : Access) (fake : Inner T) :
    Records fake (recorded a).toList ((access a).run fake).2 := by
  cases a <;> constructor <;> first | rfl | exact (List.append_nil _).symm

theorem Records.trans {fake fake' fake'' : Inner T} {ops ops' : List Operation}
    (first : Records fake ops fake') (second : Records fake' ops' fake'') :
    Records fake (ops ++ ops') fake'' where
  createdId := second.createdId.trans first.createdId
  taskView := second.taskView.trans first.taskView
  tasks := second.tasks.trans first.tasks
  deleted := second.deleted.trans first.deleted
  health := second.health.trans first.health
  creates := by rw [second.creates, first.creates, List.filterMap_append, List.append_assoc]
  gets := by rw [second.gets, first.gets, List.filterMap_append, List.append_assoc]
  lists := by rw [second.lists, first.lists, List.filterMap_append, List.append_assoc]
  deletes := by rw [second.deletes, first.deletes, List.filterMap_append, List.append_assoc]

/-- What a test reads back: the last operation recorded, or what there was before. -/
theorem Records.last {fake fake' : Inner T} {ops : List Operation}
    (records : Records fake ops fake') :
    lastCreate fake' = (ops.filterMap asCreate).getLast?.or (lastCreate fake) ∧
      lastGet fake' = (ops.filterMap asGet).getLast?.or (lastGet fake) ∧
      lastList fake' = (ops.filterMap asList).getLast?.or (lastList fake) ∧
      lastDelete fake' = (ops.filterMap asDelete).getLast?.or (lastDelete fake) := by
  refine ⟨?_, ?_, ?_, ?_⟩
  · rw [lastCreate, records.creates, List.getLast?_append]; rfl
  · rw [lastGet, records.gets, List.getLast?_append]; rfl
  · rw [lastList, records.lists, List.getLast?_append]; rfl
  · rw [lastDelete, records.deletes, List.getLast?_append]; rfl

/-- The statement reads what is configured, if it reads anything of it. -/
theorem truthful_access (a : Access) (fake : Inner T) :
    Truthful fake ⟨a, ((access a).run fake).1⟩ := by
  cases a <;> first | rfl | trivial

theorem Records.truthful {fake fake' : Inner T} {ops : List Operation}
    (records : Records fake ops fake') {call : Sigma (Accessed T)} (told : Truthful fake' call) :
    Truthful fake call := by
  obtain ⟨a, r⟩ := call
  cases a with
  | createdId => exact Eq.trans told records.createdId
  | taskView => exact Eq.trans told records.taskView
  | tasks => exact Eq.trans told records.tasks
  | deleted => exact Eq.trans told records.deleted
  | health => exact Eq.trans told records.health
  | _ => trivial

/-! ## Many statements -/

def records (calls : List (Sigma (Accessed T))) : List Operation :=
  calls.filterMap fun call => recorded call.1

def takes (calls : List (Sigma (Accessed T))) : List (Option CrewError) := calls.filterMap taken

/-- The double has recorded what it saw, and has answered as configured. -/
theorem records_serially {fake fake' : Inner T} {calls : List (Sigma (Accessed T))}
    (serially : Serially access fake calls fake') :
    Records fake (records calls) fake' ∧ ∀ call ∈ calls, Truthful fake call := by
  induction calls generalizing fake with
  | nil =>
      rw [show fake' = fake from serially]
      refine ⟨?_, by simp⟩
      constructor <;> first | rfl | exact (List.append_nil _).symm
  | cons call calls ih =>
      obtain ⟨a, r⟩ := call
      obtain ⟨rfl, rest⟩ := serially
      obtain ⟨later, truthful⟩ := ih rest
      have here := records_access a fake
      refine ⟨?_, List.forall_mem_cons.mpr ⟨truthful_access a fake, fun call member =>
        here.truthful (truthful call member)⟩⟩
      have split : records (⟨a, ((access a).run fake).1⟩ :: calls) =
          (recorded a).toList ++ records calls := by
        simp only [records, List.filterMap_cons]
        cases recorded a <;> rfl
      rw [split]
      exact here.trans later

/-- The error is still there, or the first to take has taken it and no other. -/
def TakenOnce (err : Option CrewError) (takes : List (Option CrewError))
    (err' : Option CrewError) : Prop :=
  (takes = [] ∧ err' = err) ∨ ∃ n, takes = err :: List.replicate n none ∧ err' = none

theorem takenOnce_serially {fake fake' : Inner T} {calls : List (Sigma (Accessed T))}
    (serially : Serially access fake calls fake') :
    TakenOnce fake.error (takes calls) fake'.error := by
  induction calls generalizing fake with
  | nil => exact .inl ⟨rfl, congrArg Inner.error serially⟩
  | cons call calls ih =>
      obtain ⟨a, r⟩ := call
      obtain ⟨rfl, rest⟩ := serially
      cases a with
      | error =>
          refine .inr ?_
          rcases ih rest with ⟨untaken, left⟩ | ⟨n, taken, left⟩
          · exact ⟨0, congrArg (fake.error :: ·) untaken, left⟩
          · exact ⟨n + 1, congrArg (fake.error :: ·) taken, left⟩
      | _ =>
          have later := ih rest
          exact later

/-! ## One operation -/

/-- What the test told the double to reply. -/
def told (fake : Inner T) : (op : Operation) → Reply T op
  | .create _ => .ok { id := fake.createdId.getD 1 }
  | .get id => orNotFound id fake.taskView
  | .list _ => .ok { tasks := fake.tasks.getD [] }
  | .delete id _ => orNotFound id fake.deleted
  | .health => fake.health.getD allOkHealth

/-- Health checks are not recorded. -/
def recordsOf : Operation → List Operation
  | .health => []
  | op => [op]

/-- The operation has taken an error, and fails with it; or there was none, and it replies
what it was told to. -/
def Finishes (fake : Inner T) (op : Operation) (calls : List (Sigma (Accessed T)))
    (reply : Reply T op) : Prop :=
  (∃ e, takes calls = [some e] ∧ (Exchange.of op reply).error = some e) ∨
    (∀ e, some e ∉ takes calls) ∧ reply = told fake op

section Answering

variable {α : Type} {call configured : Access} {answer : Accessed T configured → Except CrewError α}
  {calls : List (Sigma (Accessed T))}

theorem answering_done {reply : Except CrewError α}
    (trace : (answering call configured answer).Trace calls (.done reply)) :
    ∃ seen, (∃ err, calls = [⟨call, seen⟩, ⟨.error, some err⟩] ∧ reply = .error err) ∨
      ∃ found, calls = [⟨call, seen⟩, ⟨.error, none⟩, ⟨configured, found⟩] ∧
        reply = answer found := by
  cases trace with
  | @call _ _ seen _ _ rest =>
      refine ⟨seen, ?_⟩
      cases rest with
      | @call _ _ err _ _ rest =>
          cases err with
          | some err =>
              cases rest
              exact .inl ⟨err, rfl, rfl⟩
          | none =>
              cases rest with
              | @call _ _ found _ _ rest =>
                  cases rest
                  exact .inr ⟨found, rfl, rfl⟩

/-- The call is recorded first. -/
theorem answering_call {a : Access} {next : Accessed T a → Statements T (Except CrewError α)}
    (trace : (answering call configured answer).Trace calls (.call a next)) :
    (calls = [] ∧ a = call) ∨ a = .error ∨ a = configured := by
  cases trace with
  | nil => exact .inl ⟨rfl, rfl⟩
  | call rest =>
      cases rest with
      | nil => exact .inr (.inl rfl)
      | @call _ _ err _ _ rest =>
          cases err with
          | some err => cases rest
          | none =>
              cases rest with
              | nil => exact .inr (.inr rfl)
              | call rest => cases rest

end Answering

theorem perform_done {fake : Inner T} {op : Operation} {calls : List (Sigma (Accessed T))}
    {reply : Reply T op} (trace : ((port T).perform op).Trace calls (.done reply))
    (truthful : ∀ call ∈ calls, Truthful fake call) :
    records calls = recordsOf op ∧ Finishes fake op calls reply := by
  have unseen : ∀ e : CrewError, some e ∉ [(none : Option CrewError)] := by simp
  cases op with
  | create request =>
      obtain ⟨seen, ⟨err, rfl, rfl⟩ | ⟨found, rfl, rfl⟩⟩ := answering_done trace
      · exact ⟨rfl, .inl ⟨err, rfl, rfl⟩⟩
      · have found : found = fake.createdId := truthful ⟨.createdId, found⟩ (by simp)
        subst found
        exact ⟨rfl, .inr ⟨unseen, rfl⟩⟩
  | get id =>
      obtain ⟨seen, ⟨err, rfl, rfl⟩ | ⟨found, rfl, rfl⟩⟩ := answering_done trace
      · exact ⟨rfl, .inl ⟨err, rfl, rfl⟩⟩
      · have found : found = fake.taskView := truthful ⟨.taskView, found⟩ (by simp)
        subst found
        exact ⟨rfl, .inr ⟨unseen, rfl⟩⟩
  | list query =>
      obtain ⟨seen, ⟨err, rfl, rfl⟩ | ⟨found, rfl, rfl⟩⟩ := answering_done trace
      · exact ⟨rfl, .inl ⟨err, rfl, rfl⟩⟩
      · have found : found = fake.tasks := truthful ⟨.tasks, found⟩ (by simp)
        subst found
        exact ⟨rfl, .inr ⟨unseen, rfl⟩⟩
  | delete id force =>
      obtain ⟨seen, ⟨err, rfl, rfl⟩ | ⟨found, rfl, rfl⟩⟩ := answering_done trace
      · exact ⟨rfl, .inl ⟨err, rfl, rfl⟩⟩
      · have found : found = fake.deleted := truthful ⟨.deleted, found⟩ (by simp)
        subst found
        exact ⟨rfl, .inr ⟨unseen, rfl⟩⟩
  | health =>
      cases trace with
      | @call _ _ found _ _ rest =>
          cases rest
          have found : found = fake.health := truthful ⟨.health, found⟩ (by simp)
          subst found
          exact ⟨rfl, .inr ⟨by simp [takes, taken], rfl⟩⟩

/-- A record is the first statement of the operation it records. -/
theorem perform_records {op op' : Operation} {calls : List (Sigma (Accessed T))} {a : Access}
    {next : Accessed T a → Statements T (Reply T op)}
    (trace : ((port T).perform op).Trace calls (.call a next)) (records : recorded a = some op') :
    calls = [] ∧ op = op' := by
  cases op with
  | create request | get id | list query | delete id force =>
      rcases answering_call trace with ⟨first, rfl⟩ | rfl | rfl
      · cases records
        exact ⟨first, rfl⟩
      · cases records
      · cases records
  | health =>
      cases trace with
      | nil => cases records
      | call rest => cases rest

/-! ## Any number of requests at once -/

theorem answer_error {form : TextForm T} {exchange : Exchange T} {e : CrewError}
    (failed : exchange.error = some e) : answer form exchange = apiError e := by
  cases exchange with
  | create request reply | get id reply | list query reply | delete id force reply =>
      cases reply with
      | ok a => cases failed
      | error e =>
          cases failed
          rfl
  | health report => cases failed

/-- What a response comes of: the error its request has taken, or what the test told the
double to reply, or a refusal. -/
inductive Answers (axum : Axum) (form : TextForm T) (fake : Inner T) (req : Request) :
    List (Sigma (Accessed T)) → Response → Prop where
  | failed {op : Operation} {e : CrewError} {calls : List (Sigma (Accessed T))}
      (asks : Asks axum req op) (recorded : records calls = recordsOf op)
      (took : takes calls = [some e]) :
      Answers axum form fake req calls ((apiError e).to req.method)
  | told {op : Operation} {calls : List (Sigma (Accessed T))} (asks : Asks axum req op)
      (recorded : records calls = recordsOf op) (spared : ∀ e, some e ∉ takes calls) :
      Answers axum form fake req calls ((answer form (.of op (told fake op))).to req.method)
  | refused {refusal : Response} (unasked : ∀ op, ¬ Asks axum req op)
      (refused : Refusal req refusal) : Answers axum form fake req [] (refusal.to req.method)

theorem answers_of_explains {axum : Axum} {form : TextForm T} {fake : Inner T} {req : Request}
    {calls : List (Sigma (Accessed T))} {r : Response}
    (explains : Explains axum form (port T) req calls r)
    (truthful : ∀ call ∈ calls, Truthful fake call) : Answers axum form fake req calls r := by
  rcases explains with ⟨op, reply, asks, trace, rfl⟩ | ⟨unasked, rfl, refusal, refused, rfl⟩
  · obtain ⟨recorded, ⟨e, took, failed⟩ | ⟨spared, rfl⟩⟩ := perform_done trace truthful
    · rw [answer_error failed]
      exact .failed asks recorded took
    · exact .told asks recorded spared
  · exact .refused unasked refused

/-- **What every test of the router rests on.**  In every run of the router over the double,
with any number of requests at once, interleaved statement by statement and dropped at
any point: what is recorded are the operations asked for, each recorded as the first
thing its request does, in the order of the records, and what was configured stays; the
error is there until a request takes it, and then gone; and every response is the error
its request has taken, or what the test told the double to reply, or a refusal. -/
theorem fake_exact {ι : Type} [DecidableEq ι] (axum : Axum) (form : TextForm T)
    (w w' : Threads ι Access (Accessed T) Response (Inner T))
    (es : List (Happening ι Request (Accessed T) Response)) (idle : ∀ p, w.thread p = .down)
    (run : Run (Serving axum form (port T) access) w es w') :
    let calls := es.filterMap Happening.made
    Records w.store (records calls) w'.store ∧
      TakenOnce w.store.error (takes calls) w'.store.error ∧
      (∀ before p call after op, es = before ++ .call p call :: after →
        recorded call.1 = some op → ∃ req, Since p req before [] ∧ Asks axum req op) ∧
      ∀ before p r after, es = before ++ .respond p r :: after →
        ∃ req calls, Since p req before calls ∧ Answers axum form w.store req calls r := by
  intro calls
  have serially : Serially access w.store calls w'.store := serial run
  have ⟨kept, truthful⟩ := records_serially serially
  refine ⟨kept, takenOnce_serially serially, ?_, ?_⟩
  · rintro before p ⟨a, reply⟩ after op split records
    rw [split] at run
    obtain ⟨req, own, next, since, trace⟩ := called (idle p) run
    obtain ⟨asked, next', asks, trace⟩ := serve_calls trace
    obtain ⟨rfl, rfl⟩ := perform_records trace records
    exact ⟨req, since, asks⟩
  · intro before p r after split
    rw [split] at run
    obtain ⟨req, own, since, trace⟩ := responded (idle p) run
    refine ⟨req, own, since, answers_of_explains (serve_responds trace) fun call member =>
      truthful call ?_⟩
    show call ∈ es.filterMap Happening.made
    rw [split, List.filterMap_append]
    exact List.mem_append_left _ (since.subset member)

/-- `DELETE /tasks/8?force=true` -/
def deleteEight : Request := { deleteSeven with path := "/tasks/8" }

/-- Two idle tasks over a double that is to fail. -/
def armedFake : Threads Bool Access (Accessed String) Response (Inner String) where
  store := failing new (.storage "down")
  thread _ := .down

/-- The deletion of task 7 is recorded first, and that of task 8 takes the error. -/
def twoDeletes : List (Happening Bool Request (Accessed String) Response) :=
  [.receive false deleteSeven, .receive true deleteEight, .call false ⟨.deletes 7 true, ()⟩,
    .call true ⟨.deletes 8 true, ()⟩, .call true ⟨.error, some (.storage "down")⟩,
    .respond true (apiError (.storage "down")), .call false ⟨.error, none⟩,
    .call false ⟨.deleted, none⟩]

/-- Task 7 is the first recorded, and is not found; the error goes to the second. -/
theorem second_delete_takes_error :
    Records (T := String) (failing new (.storage "down")) [.delete 7 true, .delete 8 true]
        { new with deletes := [(7, true), (8, true)] } ∧
      (∃ req calls, Since true req (twoDeletes.take 5) calls ∧
        Answers queryAxum .verbatim (failing new (.storage "down")) req calls
          (apiError (.storage "down"))) ∧
      ∃ req calls, Since false req twoDeletes calls ∧
        Answers queryAxum .verbatim (failing new (.storage "down")) req calls
          (apiError (.notFound 7)) := by
  have run : ∃ w, Run (Serving queryAxum .verbatim (port String) access) armedFake
      (twoDeletes ++ [.respond false (apiError (.notFound 7))]) w ∧
        w.store = { (new : Inner String) with deletes := [(7, true), (8, true)] } :=
    ⟨_, .cons (.receive deleteSeven rfl) <| .cons (.receive deleteEight rfl) <|
      .cons (.call rfl) <| .cons (.call rfl) <| .cons (.call rfl) <| .cons (.respond rfl) <|
      .cons (.call rfl) <| .cons (.call rfl) <| .cons (.respond rfl) (.nil _), rfl⟩
  obtain ⟨w, run, same⟩ := run
  obtain ⟨kept, -, -, responses⟩ :=
    fake_exact queryAxum .verbatim armedFake w _ (fun _ => rfl) run
  rw [same] at kept
  exact ⟨kept, responses (twoDeletes.take 5) true _ _ rfl, responses twoDeletes false _ [] rfl⟩

end FakeRepo

end CrewList.Server
