/-
# CrewList.Server.Api -- the router as an interface of five operations

`Asks` says which requests ask for which operation, in terms of path, verb, body and
pairs and without mention of the extractors, and `answer` how a reply is put.
`serve_asked` and `serve_unasked` are that the router is this interface, over a port in
any monad; `served_as_asked` is the same for a repo: an operation that is asked for is
performed, once, and answered with its reply, and a request that asks for none changes
nothing and is refused.

`Writes` is the other direction, how a client of `crewlist-core`'s types puts an
operation into a request; `round_trip` is that this reaches the operation and brings
its reply back, for any repo.
-/
import CrewList.Server.Create
import CrewList.Server.Delivery
import CrewList.Server.Queries

namespace CrewList.Server

open CrewList.Core
open CrewList.Theory.Serde

set_option autoImplicit false

/-! ## Answers -/

section Answers

variable {T : Type}

/-- How a reply is answered. -/
def answer (form : TextForm T) : Exchange T → Response
  | .create _ reply => respond 201 (CreatedTask.codec Json).encode reply
  | .get _ reply => respond 200 (taskViewJson form).encode reply
  | .list _ reply => respond 200 (taskListResponseJson form).encode reply
  | .delete _ _ reply => respond 200 (DeletedTask.codec Json).encode reply
  | .health report => { status := 200, body := some ((HealthResponse.codec Json).encode report) }

theorem answer_delivers (form : TextForm T) (exchange : Exchange T) :
    Delivers form exchange (answer form exchange) := by
  cases exchange with
  | health report => exact ⟨rfl, _, rfl, Codec.decode_encode _ _⟩
  | _ => exact respond_carries _ _ _

end Answers

/-! ## Requests -/

/-- The method a request is routed by: HEAD is GET. -/
def Request.verb (req : Request) : Method :=
  match req.method with
  | .head => .get
  | method => method

/-- What the client gets of a response: to HEAD, no body. -/
def Response.to (r : Response) : Method → Response
  | .head => { r with body := none }
  | _ => r

theorem Request.verb_of_notHead (req : Request) (notHead : req.method ≠ .head) :
    req.verb = req.method := by
  unfold verb
  split
  · rename_i head
    exact absurd head notHead
  · rfl

theorem Response.to_of_notHead (r : Response) {method : Method} (notHead : method ≠ .head) :
    r.to method = r := by
  cases method with
  | head => exact absurd rfl notHead
  | _ => rfl

/-- A path of the route table. -/
def KnownPath (path : String) : Prop :=
  path = "/health" ∨ path = "/tasks" ∨
    ∃ segment, path = "/tasks/" ++ segment ∧ segment ≠ "" ∧ '/' ∉ segment.toList

/-- A path and verb of the route table. -/
def Offered (req : Request) : Prop := Routed { req with method := req.verb }

/-- How a request that asks for nothing is refused: not found, not allowed, or with a
validation error. -/
structure Refusal (req : Request) (r : Response) : Prop where
  notFound : ¬ KnownPath req.path → r = { status := 404, body := none }
  notAllowed : KnownPath req.path → ¬ Offered req → r = { status := 405, body := none }
  invalid : Offered req → r.status = 400 ∧ ∃ e, e.code = .validation ∧ IsErrorOf e r

/-- The elements are the fields in the order of their declaration, as far as they go. -/
def FitsInOrder (r : CreateTaskRequest) (vs : List Json) : Prop :=
  List.Forall₂ (Holds r) (fieldNames.take vs.length) vs ∧
    ∀ key ∈ fieldNames.drop vs.length, Defaulted r key

/-- The document describes the task to be created: an object, or an array. -/
def Describes (r : CreateTaskRequest) (v : Json) : Prop :=
  (∃ members, v = .obj members ∧ Fits r members) ∨ ∃ vs, v = .arr vs ∧ FitsInOrder r vs

/-- The body is JSON, announced as such and within the limit, and describes the task. -/
def SendsTask (axum : Axum) (req : Request) (r : CreateTaskRequest) : Prop :=
  axum.isJsonContent req.headers = true ∧ ∃ bytes v, req.body = some bytes ∧
    bytes.length ≤ bodyLimit ∧ axum.parseJson bytes = some v ∧ Describes r v

/-- The path is that of one task, and its segment names the id. -/
def NamesTask (axum : Axum) (req : Request) (id : TaskId) : Prop :=
  ∃ segment, req.path = "/tasks/" ++ segment ∧ segment ≠ "" ∧ '/' ∉ segment.toList ∧
    NamesId axum segment id

/-- What a request asks for. -/
inductive Asks (axum : Axum) (req : Request) : Operation → Prop where
  | create {r : CreateTaskRequest} (verb : req.verb = .post) (path : req.path = "/tasks")
      (sends : SendsTask axum req r) : Asks axum req (.create r)
  | get {id : TaskId} (verb : req.verb = .get) (names : NamesTask axum req id) :
      Asks axum req (.get id)
  | list {q : ListQuery} (verb : req.verb = .get) (path : req.path = "/tasks")
      (understood : Understands (axum.pairs req) q) : Asks axum req (.list q)
  | delete {id : TaskId} {force : Bool} (verb : req.verb = .delete)
      (names : NamesTask axum req id) (understood : UnderstandsForce (axum.pairs req) force) :
      Asks axum req (.delete id force)
  | health (verb : req.verb = .get) (path : req.path = "/health") : Asks axum req .health

/-! ## Documents that describe a task -/

section Documents

variable {r : CreateTaskRequest}

/-- `FitsInOrder` from some field on. -/
def FitsFrom (r : CreateTaskRequest) (keys : List String) (vs : List Json) : Prop :=
  List.Forall₂ (Holds r) (keys.take vs.length) vs ∧ ∀ key ∈ keys.drop vs.length, Defaulted r key

/-- One field by position: the next element is its value, or the elements are used up and
the field defaulted. -/
theorem inOrder_iff {α β τ : Type} {f : Field Json α} {rest : Fields Json β τ} {a : α} {row : β}
    {keys : List String} (holds : ∀ v, f.decode v = .ok a ↔ Holds r f.name v)
    (default : f.absentSeq = some a ↔ Defaulted r f.name)
    (onward : ∀ vs, rest.visitSeq vs = .ok (row, []) ↔ FitsFrom r keys vs) (vs : List Json) :
    (Fields.cons f rest).visitSeq vs = .ok ((a, row), []) ↔ FitsFrom r (f.name :: keys) vs := by
  cases vs with
  | nil =>
      rw [Fields.visitSeq_nil_eq_ok, default, onward]
      simp [FitsFrom]
  | cons v vs =>
      rw [Fields.visitSeq_cons_eq_ok, holds, onward]
      simp [FitsFrom, and_assoc]

theorem required_inOrder {α β τ : Type} {name : String} {c : Codec Json α}
    {rest : Fields Json β τ} {a : α} {row : β} {keys : List String}
    (holds : ∀ v, c.decode v = .ok a ↔ Holds r name v) (needed : ¬ Defaulted r name)
    (onward : ∀ vs, rest.visitSeq vs = .ok (row, []) ↔ FitsFrom r keys vs) (vs : List Json) :
    (Fields.cons (.required name c) rest).visitSeq vs = .ok ((a, row), []) ↔
      FitsFrom r (name :: keys) vs :=
  inOrder_iff (f := .required name c) holds ⟨nofun, fun defaulted => absurd defaulted needed⟩
    onward vs

theorem defaulted_inOrder {α β τ : Type} {name : String} {c : Codec Json α} {d : α}
    {rest : Fields Json β τ} {a : α} {row : β} {keys : List String}
    (holds : ∀ v, c.decode v = .ok a ↔ Holds r name v) (default : a = d ↔ Defaulted r name)
    (onward : ∀ vs, rest.visitSeq vs = .ok (row, []) ↔ FitsFrom r keys vs) (vs : List Json) :
    (Fields.cons (.defaulted name c d) rest).visitSeq vs = .ok ((a, row), []) ↔
      FitsFrom r (name :: keys) vs :=
  inOrder_iff (f := .defaulted name c d) holds (Option.some_inj.trans (eq_comm.trans default))
    onward vs

/-- **What `CreateTaskRequest` reads from any document.** -/
theorem createTaskRequest_describes {v : Json} :
    (CreateTaskRequest.codec Json).decode v = .ok r ↔ Describes r v := by
  cases v with
  | obj members =>
      rw [createTaskRequest_decode]
      simp [Describes]
  | arr vs =>
      have shape : deserializeStruct (Json.arr vs) = .ok (.elements vs) := rfl
      rw [CreateTaskRequest.codec, StructTable.codec,
        (CreateTaskRequest.table Json).decode_elements_eq_ok false shape]
      have fits : FitsInOrder r vs ↔ FitsFrom r fieldNames vs := Iff.rfl
      simp only [Describes, reduceCtorEq, false_and, exists_false, false_or, Json.arr.injEq,
        exists_eq_left', fits]
      refine required_inOrder (fun v => ?_) (by simp [Defaulted]) ?_ vs
      · exact Json.decode_str_eq_ok.trans (by simp [Holds])
      refine defaulted_inOrder (fun v => ?_) (by simp [Defaulted]) ?_
      · exact text_eq_ok.trans (by simp [Holds])
      refine defaulted_inOrder (fun v => ?_) (by simp [Defaulted]) ?_
      · exact id_eq_ok.trans (by simp [Holds])
      refine required_inOrder (fun v => ?_) (by simp [Defaulted]) ?_
      · exact Json.decode_unitEnum_eq_ok.trans (by simp [Holds])
      refine defaulted_inOrder (fun v => ?_) (by simp [Defaulted, defaultTrue]) ?_
      · exact Json.decode_bool_eq_ok.trans (by simp [Holds])
      refine defaulted_inOrder (fun v => ?_) (by simp [Defaulted]) fun vs => ?_
      · exact texts_eq_ok.trans (by simp [Holds])
      cases vs <;> simp [Fields.visitSeq, FitsFrom]
  | _ =>
      refine iff_of_false (fun decoded => ?_) (by simp [Describes])
      cases decoded

end Documents

/-! ## The router -/

section Requests

variable {T : Type} {axum : Axum} {form : TextForm T} {req : Request}

section Routing

variable {m : Type → Type} [Monad m] {port : Port m T}

theorem serve_unmatched (unmatched : matchRoute req.path = none) :
    serve axum form port req = pure { status := 404, body := none } := by
  simp only [serve, unmatched]

theorem serve_unlisted {route : Route} (matched : matchRoute req.path = some route)
    (unlisted : endpoint axum form port route req.verb = none) :
    serve axum form port req = pure { status := 405, body := none } := by
  rw [Request.verb] at unlisted
  simp only [serve, matched]
  cases method : req.method <;> simp only [method] at unlisted ⊢ <;> rw [unlisted]

theorem serve_listed [LawfulMonad m] {route : Route} (matched : matchRoute req.path = some route)
    {handler : Request → m Response}
    (listed : endpoint axum form port route req.verb = some handler) :
    serve axum form port req = (fun r => r.to req.method) <$> handler req := by
  rw [Request.verb] at listed
  simp only [serve, matched]
  cases method : req.method <;> simp only [method] at listed ⊢ <;> rw [listed]
  case head => exact bind_pure_comp _ _
  all_goals exact (id_map _).symm

end Routing

theorem namesTask_iff {segment : String} {id : TaskId}
    (matched : matchRoute req.path = some (.task segment)) :
    NamesTask axum req id ↔ NamesId axum segment id := by
  constructor
  · rintro ⟨segment', path, nonempty, single, named⟩
    have matched' := matchRoute_eq_task.mpr ⟨path, nonempty, single⟩
    rw [matched] at matched'
    cases matched'
    exact named
  · intro named
    obtain ⟨path, nonempty, single⟩ := matchRoute_eq_task.mp matched
    exact ⟨segment, path, nonempty, single, named⟩

theorem matchRoute_none {path : String} : matchRoute path = none ↔ ¬ KnownPath path := by
  constructor
  · rintro unmatched (isHealth | isTasks | ⟨segment, isTask⟩)
    · rw [matchRoute_eq_health.mpr isHealth] at unmatched
      cases unmatched
    · rw [matchRoute_eq_tasks.mpr isTasks] at unmatched
      cases unmatched
    · rw [matchRoute_eq_task.mpr isTask] at unmatched
      cases unmatched
  · intro unknown
    cases matched : matchRoute path with
    | none => rfl
    | some route =>
        refine absurd ?_ unknown
        cases route with
        | health => exact .inl (matchRoute_eq_health.mp matched)
        | tasks => exact .inr (.inl (matchRoute_eq_tasks.mp matched))
        | task segment => exact .inr (.inr ⟨segment, matchRoute_eq_task.mp matched⟩)

/-- What is in the table has a handler. -/
theorem offered_of_listed {m : Type → Type} [Monad m] {port : Port m T} {route : Route}
    (matched : matchRoute req.path = some route) {handler : Request → m Response}
    (listed : endpoint axum form port route req.verb = some handler) : Offered req := by
  cases route with
  | health =>
      have path := matchRoute_eq_health.mp matched
      cases verb : req.verb with
      | get => exact .inl ⟨path, verb⟩
      | _ =>
          rw [verb] at listed
          cases listed
  | tasks =>
      have path := matchRoute_eq_tasks.mp matched
      cases verb : req.verb with
      | get => exact .inr (.inl ⟨path, .inr verb⟩)
      | post => exact .inr (.inl ⟨path, .inl verb⟩)
      | _ =>
          rw [verb] at listed
          cases listed
  | task segment =>
      obtain ⟨path, nonempty, single⟩ := matchRoute_eq_task.mp matched
      cases verb : req.verb with
      | get => exact .inr (.inr ⟨segment, path, nonempty, single, .inl verb⟩)
      | delete => exact .inr (.inr ⟨segment, path, nonempty, single, .inr verb⟩)
      | _ =>
          rw [verb] at listed
          cases listed

theorem listed_of_offered {m : Type → Type} [Monad m] {port : Port m T} {route : Route}
    (matched : matchRoute req.path = some route) (offered : Offered req) :
    endpoint axum form port route req.verb ≠ none := by
  rcases offered with ⟨path, verb⟩ | ⟨path, verb⟩ | ⟨segment, path, nonempty, single, verb⟩
  · rw [matchRoute_eq_health.mpr path] at matched
    cases matched
    change req.verb = .get at verb
    rw [verb]
    exact nofun
  · rw [matchRoute_eq_tasks.mpr path] at matched
    cases matched
    change req.verb = .post ∨ req.verb = .get at verb
    rcases verb with verb | verb <;> rw [verb] <;> exact nofun
  · rw [matchRoute_eq_task.mpr ⟨path, nonempty, single⟩] at matched
    cases matched
    change req.verb = .get ∨ req.verb = .delete at verb
    rcases verb with verb | verb <;> rw [verb] <;> exact nofun

/-! ### Extraction -/

theorem appJson_task {r : CreateTaskRequest} :
    axum.appJson (CreateTaskRequest.codec Json).decode req = .ok r ↔ SendsTask axum req r := by
  rw [Axum.appJson_ok, SendsTask]
  simp only [createTaskRequest_describes]

theorem appQuery_list {q : ListQuery} :
    axum.appQuery ListQuery.decode req = .ok q ↔ Understands (axum.pairs req) q :=
  Axum.appQuery_ok.trans listQuery_decode

/-! ### What is asked for -/

/-- **What is asked for is done**, and its reply is the answer; in any monad. -/
theorem serve_asked {m : Type → Type} [Monad m] [LawfulMonad m] {port : Port m T} {op : Operation}
    (asks : Asks axum req op) :
    serve axum form port req =
      (fun reply => (answer form (.of op reply)).to req.method) <$> port.perform op := by
  cases asks with
  | create verb path sends =>
      have listed : endpoint axum form port .tasks req.verb =
          some (create axum port) := by rw [verb]; rfl
      rw [serve_listed (matchRoute_eq_tasks.mpr path) listed, create,
        appJson_task.mpr sends]
      simp only [handle, bind_pure_comp, Functor.map_map]
      rfl
  | list verb path understood =>
      have listed : endpoint axum form port .tasks req.verb =
          some (list axum form port) := by rw [verb]; rfl
      rw [serve_listed (matchRoute_eq_tasks.mpr path) listed, list,
        appQuery_list.mpr understood]
      simp only [handle, bind_pure_comp, Functor.map_map]
      rfl
  | get verb names =>
      obtain ⟨segment, path, nonempty, single, named⟩ := names
      have listed : endpoint axum form port (.task segment) req.verb =
          some (get axum form port segment) := by rw [verb]; rfl
      rw [serve_listed (matchRoute_eq_task.mpr ⟨path, nonempty, single⟩) listed, get,
        Axum.appPath_ok.mpr named]
      simp only [handle, bind_pure_comp, Functor.map_map]
      rfl
  | delete verb names understood =>
      obtain ⟨segment, path, nonempty, single, named⟩ := names
      have listed : endpoint axum form port (.task segment) req.verb =
          some (delete axum port segment) := by rw [verb]; rfl
      rw [serve_listed (matchRoute_eq_task.mpr ⟨path, nonempty, single⟩) listed, delete,
        (deleteArguments_ok axum).mpr ⟨named, understood⟩]
      simp only [handle, bind_pure_comp, Functor.map_map]
      rfl
  | health verb path =>
      have listed : endpoint axum form port .health req.verb =
          some fun _ => health port := by rw [verb]; rfl
      rw [serve_listed (matchRoute_eq_health.mpr path) listed]
      simp only [health, bind_pure_comp, Functor.map_map]
      rfl

/-! ### What is not -/

theorem Offered.known (offered : Offered req) : KnownPath req.path := by
  rcases offered with ⟨path, -⟩ | ⟨path, -⟩ | ⟨segment, path, nonempty, single, -⟩
  · exact .inl path
  · exact .inr (.inl path)
  · exact .inr (.inr ⟨segment, path, nonempty, single⟩)

theorem refusal_of_validation {e : CrewError} (validation : e.code = .validation)
    (offered : Offered req) : Refusal req (apiError e) where
  notFound unknown := absurd offered.known unknown
  notAllowed _ unlisted := absurd offered unlisted
  invalid _ := by
    refine ⟨?_, e, validation, apiError_isErrorOf e⟩
    show statusFor e.code = 400
    rw [validation]
    rfl

section Refusals

variable {m : Type → Type} [Monad m] [LawfulMonad m] {port : Port m T}

omit [LawfulMonad m] in
/-- A handler is listed, and nothing is asked for: extraction failed, and is the answer. -/
theorem listed_unasked (unasked : ∀ op, ¬ Asks axum req op) {route : Route}
    (matched : matchRoute req.path = some route) {handler : Request → m Response}
    (listed : endpoint axum form port route req.verb = some handler) :
    ∃ e, e.code = .validation ∧ handler req = pure (apiError e) := by
  cases route with
  | health =>
      have path := matchRoute_eq_health.mp matched
      cases verb : req.verb with
      | get => exact absurd (.health verb path) (unasked _)
      | _ =>
          rw [verb] at listed
          cases listed
  | tasks =>
      have path := matchRoute_eq_tasks.mp matched
      cases verb : req.verb with
      | post =>
          rw [verb] at listed
          cases listed
          cases extracted : axum.appJson (CreateTaskRequest.codec Json).decode req with
          | ok r => exact absurd (.create verb path (appJson_task.mp extracted)) (unasked _)
          | error e =>
              refine ⟨e, Axum.validated_error extracted, ?_⟩
              rw [create, extracted]
              rfl
      | get =>
          rw [verb] at listed
          cases listed
          cases extracted : axum.appQuery ListQuery.decode req with
          | ok q => exact absurd (.list verb path (appQuery_list.mp extracted)) (unasked _)
          | error e =>
              refine ⟨e, Axum.validated_error extracted, ?_⟩
              rw [list, extracted]
              rfl
      | _ =>
          rw [verb] at listed
          cases listed
  | task segment =>
      cases verb : req.verb with
      | get =>
          rw [verb] at listed
          cases listed
          cases extracted : axum.appPath segment req with
          | ok id =>
              have names := (namesTask_iff matched).mpr (Axum.appPath_ok.mp extracted)
              exact absurd (.get verb names) (unasked _)
          | error e =>
              refine ⟨e, Axum.validated_error extracted, ?_⟩
              rw [get, extracted]
              rfl
      | delete =>
          rw [verb] at listed
          cases listed
          cases extracted : deleteArguments axum segment req with
          | ok arguments =>
              obtain ⟨named, understood⟩ := (deleteArguments_ok axum).mp extracted
              have names := (namesTask_iff matched).mpr named
              exact absurd (.delete verb names understood) (unasked _)
          | error e =>
              refine ⟨e, deleteArguments_error extracted, ?_⟩
              rw [delete, extracted]
              rfl
      | _ =>
          rw [verb] at listed
          cases listed

/-- **What asks for nothing asks the repo nothing**, and is refused. -/
theorem serve_unasked (unasked : ∀ op, ¬ Asks axum req op) :
    ∃ r, Refusal req r ∧ serve axum form port req = pure (r.to req.method) := by
  cases matched : matchRoute req.path with
  | none =>
      have unknown := matchRoute_none.mp matched
      refine ⟨{ status := 404, body := none }, ⟨fun _ => rfl, fun known => absurd known unknown,
        fun offered => absurd offered.known unknown⟩, ?_⟩
      rw [serve_unmatched matched]
      cases req.method <;> rfl
  | some route =>
      have known : KnownPath req.path := by
        by_contra unknown
        rw [matchRoute_none.mpr unknown] at matched
        cases matched
      cases listed : endpoint axum form port route req.verb with
      | none =>
          have unlisted : ¬ Offered req := fun offered => listed_of_offered matched offered listed
          refine ⟨{ status := 405, body := none }, ⟨fun unknown => absurd known unknown,
            fun _ _ => rfl, fun offered => absurd offered unlisted⟩, ?_⟩
          rw [serve_unlisted matched listed]
          cases req.method <;> rfl
      | some handler =>
          obtain ⟨e, validation, refused⟩ := listed_unasked unasked matched listed
          have offered : Offered req := offered_of_listed matched listed
          refine ⟨apiError e, refusal_of_validation validation offered, ?_⟩
          rw [serve_listed matched listed, refused, map_pure]

end Refusals

/-! ### Over a repo -/

variable {σ : Type} {repo : TaskRepo σ T}

theorem observe_asked {op : Operation} (asks : Asks axum req op) (s : σ) :
    observe axum form repo req s =
      ((answer form ((op.perform repo).run s).1).to req.method, ((op.perform repo).run s).2,
        [((op.perform repo).run s).1]) := by
  rw [observe, serve_asked asks, StateT.run_map, recorded_perform]
  rfl

theorem observe_unasked (unasked : ∀ op, ¬ Asks axum req op) (s : σ) :
    ∃ r, Refusal req r ∧ observe axum form repo req s = (r.to req.method, s, []) := by
  have refused : ∃ r, Refusal req r ∧ serve axum form repo.recorded req = pure (r.to req.method) :=
    serve_unasked unasked
  obtain ⟨r, refusal, served⟩ := refused
  refine ⟨r, refusal, ?_⟩
  rw [observe, served]
  rfl

/-- A request asks for one operation at most. -/
theorem Asks.unique {op op' : Operation} (asks : Asks axum req op) (asks' : Asks axum req op') :
    op = op' := by
  have first : serve axum .verbatim (asking String) req = _ := serve_asked asks
  rw [serve_asked asks', asking_perform, asking_perform] at first
  cases first
  rfl

/-- **The server is its interface.**  For every request, HEAD included, and every repo: an
operation that is asked for, and there is one at most, is performed once and answered
with its reply; a request that asks for none leaves the repo as it was, calls nothing and
is refused, with 404 for an unknown path, 405 for a verb the path does not offer, and
else a validation error. -/
theorem served_as_asked (axum : Axum) (form : TextForm T) (repo : TaskRepo σ T) (req : Request)
    (s : σ) :
    (∀ op op', Asks axum req op → Asks axum req op' → op = op') ∧
      (∀ op, Asks axum req op →
        observe axum form repo req s =
          ((answer form ((op.perform repo).run s).1).to req.method, ((op.perform repo).run s).2,
            [((op.perform repo).run s).1])) ∧
      ((∀ op, ¬ Asks axum req op) →
        ∃ r, Refusal req r ∧ observe axum form repo req s = (r.to req.method, s, [])) :=
  ⟨fun _ _ => Asks.unique, fun _ asks => observe_asked asks s, fun unasked =>
    observe_unasked unasked s⟩

/-! ## From a client and back -/

/-- The request is what a client of these types writes for the operation, and the HTTP
stack hands on what was written. -/
inductive Writes (axum : Axum) (req : Request) : Operation → Prop where
  | create {r : CreateTaskRequest} {bytes : List UInt8} (method : req.method = .post)
      (path : req.path = "/tasks") (content : axum.isJsonContent req.headers = true)
      (body : req.body = some bytes) (within : bytes.length ≤ bodyLimit)
      (parsed : axum.parseJson bytes = some ((CreateTaskRequest.codec Json).encode r)) :
      Writes axum req (.create r)
  | get {id : TaskId} (method : req.method = .get) (path : req.path = "/tasks/" ++ toString id)
      (plain : axum.percentDecode (toString id) = some (toString id)) : Writes axum req (.get id)
  | list {q : ListQuery} (method : req.method = .get) (path : req.path = "/tasks")
      (pairs : axum.pairs req = q.pairs) : Writes axum req (.list q)
  | delete {id : TaskId} {force : Bool} (method : req.method = .delete)
      (path : req.path = "/tasks/" ++ toString id)
      (plain : axum.percentDecode (toString id) = some (toString id))
      (pairs : axum.pairs req = DeleteQuery.pairs { force }) : Writes axum req (.delete id force)
  | health (method : req.method = .get) (path : req.path = "/health") : Writes axum req .health

/-- The text of an id is one segment, which names it. -/
theorem namesTask_toString {id : TaskId} (path : req.path = "/tasks/" ++ toString id)
    (plain : axum.percentDecode (toString id) = some (toString id)) : NamesTask axum req id := by
  refine ⟨toString id, path, ?_, ?_, toString id, plain, parseI64_toString id⟩
  · intro empty
    have read := parseI64_toString id
    rw [empty] at read
    cases read
  · intro slash
    rcases toString_chars id.toInt '/' slash with same | digit
    · exact absurd same (by decide)
    · exact absurd digit (by decide)

theorem Writes.notHead {op : Operation} (writes : Writes axum req op) : req.method ≠ .head := by
  cases writes with
  | create method | get method | list method | delete method | health method =>
      rw [method]
      exact nofun

theorem Writes.asks {op : Operation} (writes : Writes axum req op) : Asks axum req op := by
  have verb := req.verb_of_notHead writes.notHead
  cases writes with
  | create method path content body within parsed =>
      refine .create (verb.trans method) path ⟨content, _, _, body, within, parsed, ?_⟩
      exact createTaskRequest_describes.mp (Codec.decode_encode _ _)
  | get method path plain => exact .get (verb.trans method) (namesTask_toString path plain)
  | list method path pairs =>
      refine .list (verb.trans method) path (listQuery_decode.mp ?_)
      rw [pairs]
      exact ListQuery.decode_pairs _
  | @delete id force method path plain pairs =>
      have understood : DeleteQuery.decode (.pairs (axum.pairs req)) = .ok ⟨force⟩ := by
        rw [pairs]
        exact DeleteQuery.decode_pairs _
      exact .delete (verb.trans method) (namesTask_toString path plain)
        (deleteQuery_decode.mp understood)
  | health method path => exact .health (verb.trans method) path

/-- **There and back.**  Whatever a client of these types writes for an operation reaches
the repo as that operation, and what it decodes from the response is the repo's reply:
the value or the error. -/
theorem round_trip (axum : Axum) (form : TextForm T) (repo : TaskRepo σ T) (req : Request)
    (op : Operation) (s : σ) (writes : Writes axum req op) :
    ∃ response, (serve axum form repo req).run s = (response, ((op.perform repo).run s).2) ∧
      Delivers form ((op.perform repo).run s).1 response := by
  have served := observe_transparent axum form repo req s
  rw [observe_asked writes.asks, Response.to_of_notHead _ writes.notHead] at served
  exact ⟨_, served.symm, answer_delivers form _⟩

end Requests

/-- A task to be created, and its JSON text. -/
def walkDog : CreateTaskRequest where
  title := "walk the dog"
  description := none
  parentId := none
  origin := .human
  agentEligible := true
  sources := []

def walkDogText : String :=
  "\x7b\"title\":\"walk the dog\",\"description\":null,\"parent_id\":null,"
    ++ "\"origin\":\"human\",\"agent_eligible\":true,\"sources\":[]\x7d"

/-- The stack on the two requests below. -/
def clientAxum : Axum :=
  tabledAxum [("force=true", [("force", "true")])]
    [(walkDogText, (CreateTaskRequest.codec Json).encode walkDog)]

theorem deleteSeven_writes : Writes clientAxum deleteSeven (.delete 7 true) :=
  .delete rfl (by decide) (by decide) (by decide)

set_option maxRecDepth 2000 in
theorem walkDog_writes : Writes clientAxum (postTask walkDogText) (.create walkDog) :=
  .create rfl rfl (by decide) rfl (by decide) rfl

/-- `DELETE /tasks/7?force=true` and the `POST` of a task bring back that neither is
implemented. -/
theorem forced_delete_answered :
    (∃ response, (serve clientAxum (.verbatim : TextForm String) (storeRepo String "0.1.0")
        deleteSeven).run storesUp = (response, storesUp) ∧
      Delivers .verbatim (.delete 7 true (.error (.unimplemented "delete task"))) response) ∧
      ∃ response, (serve clientAxum (.verbatim : TextForm String) (storeRepo String "0.1.0")
          (postTask walkDogText)).run storesUp = (response, storesUp) ∧
        Delivers .verbatim (.create walkDog (.error (.unimplemented "create task"))) response :=
  ⟨round_trip _ .verbatim (storeRepo String "0.1.0") _ (.delete 7 true) _ deleteSeven_writes,
    round_trip _ .verbatim (storeRepo String "0.1.0") _ (.create walkDog) _ walkDog_writes⟩

/-! ## What the status alone tells -/

/-- The exit code of a failure, from its status. -/
def exitForStatus : Nat → Nat
  | 400 => 6
  | 404 => 3
  | 409 => 4
  | 503 => 5
  | _ => 1

theorem exitForStatus_statusFor (e : CrewError) :
    exitForStatus (statusFor e.code) = e.exitCode := by
  have served := e.code_ne_unreachable
  show _ = e.code.exitCode
  cases code : e.code with
  | unreachable => exact absurd code served
  | _ => rfl

section Statuses

variable {σ T : Type}

theorem Response.to_status (r : Response) (method : Method) : (r.to method).status = r.status := by
  cases method <;> rfl

/-- An answer is a success, or the error object of what the operation replied. -/
theorem answer_cases (form : TextForm T) (exchange : Exchange T) :
    (answer form exchange).isSuccess ∨
      ∃ e, exchange.error = some e ∧ answer form exchange = apiError e := by
  cases exchange with
  | create r reply | get id reply | list q reply | delete id force reply =>
      cases reply with
      | ok b => exact .inl ⟨by simp [answer, respond], by simp [answer, respond]⟩
      | error e => exact .inr ⟨e, rfl, rfl⟩
  | health report => exact .inl ⟨by simp [answer], by simp [answer]⟩

/-- **The status tells the exit code.**  For every request the table offers, HEAD included,
and every repo: a response that is not a success comes of an error whose exit code is
that of the status. -/
theorem exit_by_status (axum : Axum) (form : TextForm T) (repo : TaskRepo σ T) (req : Request)
    (s : σ) (offered : Offered req) :
    let result := observe axum form repo req s
    result.1.isSuccess ∨
      ∃ e, FailedWith result.2.2 e ∧ result.1.status = statusFor e.code ∧
        e.exitCode = exitForStatus result.1.status := by
  intro result
  by_cases asked : ∃ op, Asks axum req op
  · obtain ⟨op, asks⟩ := asked
    have served : result = _ := observe_asked asks s
    rcases answer_cases form ((op.perform repo).run s).1 with success | ⟨e, replied, same⟩
    · refine .inl ?_
      rw [served, Response.isSuccess, Response.to_status]
      exact success
    · refine .inr ⟨e, ?_, ?_, ?_⟩
      · rw [served]
        exact .inr ⟨_, rfl, replied⟩
      · rw [served, same, Response.to_status]
        rfl
      · rw [served, same, Response.to_status]
        exact (exitForStatus_statusFor e).symm
  · obtain ⟨r, refusal, served⟩ := @observe_unasked T axum form req σ repo (not_exists.mp asked) s
    obtain ⟨status, e, validation, -⟩ := refusal.invalid offered
    have served : result = _ := served
    refine .inr ⟨e, ?_, ?_, ?_⟩
    · rw [served]
      exact .inl ⟨rfl, validation⟩
    · rw [served, Response.to_status, status, validation]
      rfl
    · rw [served, Response.to_status, status, CrewError.exitCode, validation]
      rfl

/-- HEAD of a task is not implemented, which is exit code 1. -/
theorem head_status_told :
    let result := observe plainAxum (.verbatim : TextForm String) (storeRepo String "0.1.0")
      { nopeRequest with method := .head, path := "/tasks/7" } storesUp
    result.1.isSuccess ∨
      ∃ e, FailedWith result.2.2 e ∧ result.1.status = statusFor e.code ∧
        e.exitCode = exitForStatus result.1.status :=
  exit_by_status plainAxum .verbatim (storeRepo String "0.1.0") _ _
    (.inr (.inr ⟨"7", by decide, by decide, by decide, .inl rfl⟩))

end Statuses

end CrewList.Server
