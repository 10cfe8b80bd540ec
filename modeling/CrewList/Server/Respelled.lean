/-
# CrewList.Server.Respelled -- messages that mean the same

A client may write the parameters of a query and the members of a body in any order.
`respelled` is that the order makes no difference: to what the repo is asked, to the state
it is left in, or to the answer.  Of a refusal the status stays; its message may name
another member first.

A server may write the members of a response in any order, and more of them.
`newer_server_read` is that a client of these types reads the same.
-/
import CrewList.Core.Additions
import CrewList.Server.Api

namespace CrewList.Server

open CrewList.Core
open CrewList.Theory.Serde

set_option autoImplicit false

variable {σ T : Type} {axum : Axum} {req req' : Request}

/-! ## What is written in another way -/

/-- The document in the body, if there is one that is read at all. -/
def Carried (axum : Axum) (req : Request) (v : Json) : Prop :=
  axum.isJsonContent req.headers = true ∧ ∃ bytes, req.body = some bytes ∧
    bytes.length ≤ bodyLimit ∧ axum.parseJson bytes = some v

/-- The requests differ in the order of the query's pairs, and in the order of members in
the document of the body. -/
structure Respells (axum : Axum) (req req' : Request) : Prop where
  method : req'.method = req.method
  path : req'.path = req.path
  pairs : (axum.pairs req).Perm (axum.pairs req')
  body : (∃ v v', Carried axum req v ∧ Carried axum req' v' ∧ Reordered v v') ∨
    ((∀ v, ¬ Carried axum req v) ∧ ∀ v, ¬ Carried axum req' v)

theorem Respells.verb (respells : Respells axum req req') : req'.verb = req.verb := by
  rw [Request.verb, Request.verb, respells.method]

/-! ## Documents that describe the same task -/

section Documents

variable {r : CreateTaskRequest}

/-- Texts are the same in any order of members. -/
theorem texts_iff {vs vs' : List Json} (elements : List.Forall₂ Reordered vs vs')
    (texts : List String) : vs = texts.map .str ↔ vs' = texts.map .str := by
  induction elements generalizing texts with
  | nil => rfl
  | @cons v v' vs vs' same _ ih =>
      cases texts with
      | nil => simp
      | cons text texts =>
          rw [List.map_cons, List.cons.injEq, List.cons.injEq, ih texts]
          refine and_congr_left fun _ => ⟨?_, ?_⟩
          · rintro rfl
            exact same.eq_of_isScalar (.inl trivial)
          · rintro rfl
            exact (same.eq_of_isScalar (.inr trivial)).symm

/-- The one object a field takes has one member. -/
theorem unit_member_iff {es kept es' : List (String × Json)}
    (members : List.Forall₂ (AtKey Reordered) es kept) (perm : es'.Perm kept) (name : String) :
    es = [(name, .null)] ↔ es' = [(name, .null)] := by
  constructor
  · rintro rfl
    rcases members with - | ⟨⟨_, related⟩, ⟨⟩⟩
    rw [related.eq_of_isScalar (.inl trivial)] at perm
    exact List.perm_singleton.mp perm
  · rintro rfl
    obtain rfl : kept = [(name, .null)] := List.perm_singleton.mp perm.symm
    rcases members with - | ⟨⟨_, related⟩, ⟨⟩⟩
    rw [related.eq_of_isScalar (.inr trivial)]

theorem holds_iff_of_reordered {v v' : Json} (same : Reordered v v') (key : String) :
    Holds r key v ↔ Holds r key v' := by
  cases same with
  | same v => rfl
  | arr elements => simp [Holds, texts_iff elements]
  | obj members perm => simp [Holds, unit_member_iff members perm]

theorem fitsAt_iff_of_reordered {es es' : List (String × Json)} (same : Reordered (.obj es) (.obj es'))
    (key : String) : FitsAt r es key ↔ FitsAt r es' key := by
  rw [FitsAt, FitsAt]
  rcases same.at_key key with ⟨absent, absent'⟩ | ⟨v, v', once, once', related⟩ | ⟨many, many'⟩
  · simp [absent, absent']
  · simp [once, once', holds_iff_of_reordered related]
  · -- neither is there once, nor missing
    have twice : ∀ {vs : List Json}, 1 < vs.length → vs ≠ [] ∧ ∀ v, vs ≠ [v] := by
      intro vs long
      exact ⟨by rintro rfl; simp at long, by rintro v rfl; simp at long⟩
    simp [twice many, twice many']

theorem elements_iff {vs vs' : List Json} (elements : List.Forall₂ Reordered vs vs')
    (keys : List String) : List.Forall₂ (Holds r) keys vs ↔ List.Forall₂ (Holds r) keys vs' := by
  induction elements generalizing keys with
  | nil => rfl
  | cons same _ ih =>
      cases keys with
      | nil => simp
      | cons key keys => simp [holds_iff_of_reordered same, ih]

theorem describes_iff_of_reordered {v v' : Json} (same : Reordered v v') :
    Describes r v ↔ Describes r v' := by
  have whole := same
  cases same with
  | same v => rfl
  | arr elements =>
      simp [Describes, FitsInOrder, elements_iff elements, elements.length_eq]
  | obj members perm =>
      simp only [Describes, Fits, Json.obj.injEq, exists_eq_left', reduceCtorEq, false_and,
        exists_false, or_false, fitsAt_iff_of_reordered whole]

end Documents

/-! ## What is asked for -/

theorem UnderstandsForce.perm {pairs pairs' : List (String × String)} {force : Bool}
    (understood : UnderstandsForce pairs force) (perm : pairs.Perm pairs') :
    UnderstandsForce pairs' force := by
  rcases understood with ⟨rfl, unset⟩ | ⟨v, rfl, spells⟩
  · exact .inl ⟨perm.symm.eq_nil, unset⟩
  · exact .inr ⟨v, List.perm_singleton.mp perm.symm, spells⟩

theorem carried_unique {v v' : Json} (carried : Carried axum req v) (carried' : Carried axum req v') :
    v = v' := by
  obtain ⟨-, bytes, body, -, parsed⟩ := carried
  obtain ⟨-, bytes', body', -, parsed'⟩ := carried'
  cases body.symm.trans body'
  exact Option.some.inj (parsed.symm.trans parsed')

theorem sendsTask_iff {r : CreateTaskRequest} :
    SendsTask axum req r ↔ ∃ v, Carried axum req v ∧ Describes r v := by
  constructor
  · rintro ⟨content, bytes, v, body, within, parsed, describes⟩
    exact ⟨v, ⟨content, bytes, body, within, parsed⟩, describes⟩
  · rintro ⟨v, ⟨content, bytes, body, within, parsed⟩, describes⟩
    exact ⟨content, bytes, v, body, within, parsed, describes⟩

theorem Respells.sendsTask_iff (respells : Respells axum req req') {r : CreateTaskRequest} :
    SendsTask axum req r ↔ SendsTask axum req' r := by
  rw [Server.sendsTask_iff, Server.sendsTask_iff]
  rcases respells.body with ⟨v, v', carried, carried', same⟩ | ⟨none, none'⟩
  · constructor
    · rintro ⟨u, here, describes⟩
      cases carried_unique carried here
      exact ⟨v', carried', (describes_iff_of_reordered same).mp describes⟩
    · rintro ⟨u, here, describes⟩
      cases carried_unique carried' here
      exact ⟨v, carried, (describes_iff_of_reordered same).mpr describes⟩
  · exact iff_of_false (fun ⟨v, carried, _⟩ => none v carried)
      fun ⟨v, carried, _⟩ => none' v carried

theorem Respells.namesTask_iff (respells : Respells axum req req') {id : TaskId} :
    NamesTask axum req id ↔ NamesTask axum req' id := by
  rw [NamesTask, NamesTask, respells.path]

/-- **What the one asks for** the other asks for. -/
theorem Respells.asks_iff (respells : Respells axum req req') {op : Operation} :
    Asks axum req op ↔ Asks axum req' op := by
  have verb := respells.verb
  have path := respells.path
  have pairs := respells.pairs
  constructor
  · rintro (⟨verbed, pathed, sends⟩ | ⟨verbed, names⟩ | ⟨verbed, pathed, understood⟩ |
      ⟨verbed, names, understood⟩ | ⟨verbed, pathed⟩)
    · exact .create (verb.trans verbed) (path.trans pathed) (respells.sendsTask_iff.mp sends)
    · exact .get (verb.trans verbed) (respells.namesTask_iff.mp names)
    · exact .list (verb.trans verbed) (path.trans pathed) (understood.perm pairs)
    · exact .delete (verb.trans verbed) (respells.namesTask_iff.mp names) (understood.perm pairs)
    · exact .health (verb.trans verbed) (path.trans pathed)
  · rintro (⟨verbed, pathed, sends⟩ | ⟨verbed, names⟩ | ⟨verbed, pathed, understood⟩ |
      ⟨verbed, names, understood⟩ | ⟨verbed, pathed⟩)
    · exact .create (verb.symm.trans verbed) (path.symm.trans pathed)
        (respells.sendsTask_iff.mpr sends)
    · exact .get (verb.symm.trans verbed) (respells.namesTask_iff.mpr names)
    · exact .list (verb.symm.trans verbed) (path.symm.trans pathed) (understood.perm pairs.symm)
    · exact .delete (verb.symm.trans verbed) (respells.namesTask_iff.mpr names)
        (understood.perm pairs.symm)
    · exact .health (verb.symm.trans verbed) (path.symm.trans pathed)

/-! ## What comes of it -/

theorem Respells.offered_iff (respells : Respells axum req req') :
    Offered req ↔ Offered req' := by
  unfold Offered Routed
  rw [respells.verb, respells.path]

/-- Two requests are refused with one status. -/
theorem Respells.refusal_status (respells : Respells axum req req') {r r' : Response}
    (refusal : Refusal req r) (refusal' : Refusal req' r') : r'.status = r.status := by
  have path := respells.path
  by_cases known : KnownPath req.path
  · by_cases offered : Offered req
    · rw [(refusal.invalid offered).1, (refusal'.invalid (respells.offered_iff.mp offered)).1]
    · have notOffered : ¬ Offered req' := fun offered' => offered (respells.offered_iff.mpr offered')
      rw [refusal.notAllowed known offered,
        refusal'.notAllowed (path.symm ▸ known) notOffered]
  · rw [refusal.notFound known, refusal'.notFound (path.symm ▸ known)]

/-- **Requests that mean the same are treated the same.**  For every repo and state, and every
two requests that differ in the order of query pairs and of body members, at any depth: they
ask for the
same, call the same and leave the repo the same, and are answered with the same status,
and unless they are refused with the same response. -/
theorem respelled (axum : Axum) (form : TextForm T) (repo : TaskRepo σ T) (req req' : Request)
    (s : σ) (respells : Respells axum req req') :
    (∀ op, Asks axum req op ↔ Asks axum req' op) ∧
      (observe axum form repo req' s).2 = (observe axum form repo req s).2 ∧
      (observe axum form repo req' s).1.status = (observe axum form repo req s).1.status ∧
      ∀ op, Asks axum req op → observe axum form repo req' s = observe axum form repo req s := by
  have served : ∀ op, Asks axum req op →
      observe axum form repo req' s = observe axum form repo req s := by
    intro op asks
    rw [observe_asked asks, observe_asked (respells.asks_iff.mp asks), respells.method]
  refine ⟨fun op => respells.asks_iff, ?_⟩
  by_cases asked : ∃ op, Asks axum req op
  · obtain ⟨op, asks⟩ := asked
    rw [served op asks]
    exact ⟨rfl, rfl, fun _ _ => rfl⟩
  · have unasked := not_exists.mp asked
    have unasked' : ∀ op, ¬ Asks axum req' op := fun op asks => unasked op (respells.asks_iff.mpr asks)
    have refusing : ∃ r, Refusal req r ∧
        observe axum form repo req s = (r.to req.method, s, []) := observe_unasked unasked s
    have refusing' : ∃ r, Refusal req' r ∧
        observe axum form repo req' s = (r.to req'.method, s, []) := observe_unasked unasked' s
    obtain ⟨r, refusal, refused⟩ := refusing
    obtain ⟨r', refusal', refused'⟩ := refusing'
    refine ⟨?_, ?_, served⟩
    · rw [refused, refused']
    · rw [refused, refused', r.to_status, r'.to_status]
      exact respells.refusal_status refusal refusal'

/-- `GET /tasks` with a query. -/
def getTasks (query : String) : Request :=
  { nopeRequest with path := "/tasks", query := some query }

/-- `buyMilk` with its members the other way round. -/
def buyMilkReordered : String := "\x7b\"origin\":\"human\",\"title\":\"buy milk\"\x7d"

/-- The stack on two queries and two bodies. -/
def reorderedAxum : Axum :=
  tabledAxum
    [("queue=agent&all=true", [("queue", "agent"), ("all", "true")]),
      ("all=true&queue=agent", [("all", "true"), ("queue", "agent")])]
    [(buyMilk, .obj buyMilkMembers), (buyMilkReordered, .obj buyMilkMembers.reverse)]

/-- The parameters of a listing the other way round, and the members of a task. -/
theorem reordered_query_answered :
    observe reorderedAxum .verbatim (storeRepo String "0.1.0") (getTasks "all=true&queue=agent")
        storesUp =
      observe reorderedAxum .verbatim (storeRepo String "0.1.0") (getTasks "queue=agent&all=true")
        storesUp ∧
    observe reorderedAxum .verbatim (storeRepo String "0.1.0") (postTask buyMilkReordered)
        storesUp =
      observe reorderedAxum .verbatim (storeRepo String "0.1.0") (postTask buyMilk) storesUp := by
  have bodiless : ∀ query v, ¬ Carried reorderedAxum (getTasks query) v := by
    rintro query v ⟨content, -⟩
    cases content
  have queries : Respells reorderedAxum (getTasks "queue=agent&all=true")
      (getTasks "all=true&queue=agent") := {
    method := rfl
    path := rfl
    pairs := .swap ..
    body := .inr ⟨bodiless _, bodiless _⟩ }
  have lists : Asks reorderedAxum (getTasks "queue=agent&all=true")
      (.list { queue := some .agent, status := none, all := true }) :=
    .list rfl rfl (listQuery_decode.mp rfl)
  have members : Reordered (.obj buyMilkMembers) (.obj buyMilkMembers.reverse) :=
    .obj (List.forall₂_same.mpr fun e _ => .intro e.1 (.same e.2)) (List.reverse_perm _)
  have carried : Carried reorderedAxum (postTask buyMilk) (.obj buyMilkMembers) :=
    ⟨rfl, utf8 buyMilk, rfl, by decide, rfl⟩
  have carried' : Carried reorderedAxum (postTask buyMilkReordered) (.obj buyMilkMembers.reverse) :=
    ⟨rfl, utf8 buyMilkReordered, rfl, by decide, rfl⟩
  have bodies : Respells reorderedAxum (postTask buyMilk) (postTask buyMilkReordered) := {
    method := rfl
    path := rfl
    pairs := by decide
    body := .inl ⟨_, _, carried, carried', members⟩ }
  have creates : Asks reorderedAxum (postTask buyMilk)
      (.create ⟨"buy milk", none, none, .human, true, []⟩) :=
    .create rfl rfl (sendsTask_iff.mpr ⟨_, carried, createTaskRequest_describes.mp rfl⟩)
  exact ⟨(respelled _ .verbatim (storeRepo String "0.1.0") _ _ storesUp queries).2.2.2 _ lists,
    (respelled _ .verbatim (storeRepo String "0.1.0") _ _ storesUp bodies).2.2.2 _ creates⟩

/-! ## Responses with more in them -/

/-- The same status, and a body that says no less. -/
structure Response.ExtendedBy (r r' : Response) : Prop where
  status : r'.status = r.status
  body : ∃ v v', r.body = some v ∧ r'.body = some v' ∧ Extends wireNames v v'

section Extended

variable {form : TextForm T} {repo : TaskRepo σ T} {r' : Response}

theorem apiError_extended {e : CrewError} (more : (apiError e).ExtendedBy r') :
    IsErrorOf e r' := by
  obtain ⟨v, v', present, present', grown⟩ := more.body
  cases present
  have decoded := errorBody_tolerant _ _ _ ((ErrorBody.codec Json).spells_encode _) grown
  exact ⟨v', _, present', decoded, rfl, rfl, more.status⟩

theorem respond_extended {β : Type} {status : Nat} {codec : Codec Json β}
    (tolerant : codec.Tolerant wireNames) {reply : Except CrewError β}
    (more : (respond status codec.encode reply).ExtendedBy r') :
    Carries status codec reply r' := by
  cases reply with
  | error e => exact apiError_extended more
  | ok b =>
      obtain ⟨v, v', present, present', grown⟩ := more.body
      cases present
      exact ⟨more.status, v', present', tolerant b _ v' (codec.spells_encode b) grown⟩

/-- An answer delivers its reply whatever is added to it. -/
theorem answer_extended {exchange : Exchange T} (more : (answer form exchange).ExtendedBy r') :
    Delivers form exchange r' := by
  cases exchange with
  | create request reply => exact respond_extended createdTask_tolerant more
  | get id reply => exact respond_extended (taskView_tolerant form) more
  | list query reply => exact respond_extended (taskListResponse_tolerant form) more
  | delete id force reply => exact respond_extended deletedTask_tolerant more
  | health report =>
      show Carries 200 (HealthResponse.codec Json) (.ok report) r'
      exact respond_extended healthResponse_tolerant more

/-- A refusal with a body is a validation error. -/
theorem refused_with_body (unasked : ∀ op, ¬ Asks axum req op) (s : σ) :
    (observe axum form repo req s).1.body = none ∨
      ∃ e, e.code = .validation ∧ (observe axum form repo req s).1 = apiError e := by
  rw [observe]
  cases matched : matchRoute req.path with
  | none => exact .inl (by rw [serve_unmatched matched]; rfl)
  | some route =>
      cases listed : endpoint axum form repo.recorded route req.verb with
      | none => exact .inl (by rw [serve_unlisted matched listed]; rfl)
      | some handler =>
          obtain ⟨e, validation, refused⟩ := listed_unasked unasked matched listed
          rw [serve_listed matched listed, refused]
          by_cases head : req.method = .head
          · rw [head]
            exact .inl rfl
          · refine .inr ⟨e, validation, ?_⟩
            show (apiError e).to req.method = _
            exact Response.to_of_notHead _ head

/-- **A client reads of a newer server** what it would read of this one.  For every request,
repo and state: if the response comes with its members in any order and any others
under names no wire type uses, at any depth, then the reply of the operation asked for is
decoded from it, and a refusal as the validation error it is. -/
theorem newer_server_read (axum : Axum) (form : TextForm T) (repo : TaskRepo σ T) (req : Request)
    (s : σ) (r' : Response) (more : (observe axum form repo req s).1.ExtendedBy r') :
    (∀ op, Asks axum req op → Delivers form ((op.perform repo).run s).1 r') ∧
      ((∀ op, ¬ Asks axum req op) → ∃ e, e.code = .validation ∧
        (observe axum form repo req s).1 = apiError e ∧ IsErrorOf e r') := by
  obtain ⟨v, v', present, -⟩ := more.body
  constructor
  · intro op asks
    rw [observe_asked asks] at more present
    have notHead : req.method ≠ .head := by
      intro head
      rw [head] at present
      cases present
    rw [Response.to_of_notHead _ notHead] at more
    exact answer_extended more
  · intro unasked
    rcases refused_with_body unasked s with bodiless | ⟨e, validation, refused⟩
    · rw [bodiless] at present
      cases present
    · exact ⟨e, validation, refused, apiError_extended (refused ▸ more)⟩

end Extended

/-- A health report of a server that adds its uptime, and how long a ping took. -/
def newerReport : Response where
  status := 200
  body := some (.obj [("uptime", .int 86400),
    ("mongo", .obj [("latency", .int 3), ("ok", .bool true)]),
    ("server", .obj [("version", .str "0.1.0"), ("ok", .bool true)]),
    ("postgres", .obj [("ok", .bool true)])])

theorem newer_report_read :
    Delivers (T := String) .verbatim (.health {
      server := .okWithVersion "0.1.0", postgres := .healthy, mongo := .healthy }) newerReport := by
  have latency : ∀ e ∈ [("latency", Json.int 3)], e.1 ∉ wireNames := by decide
  have uptime : ∀ e ∈ [("uptime", Json.int 86400)], e.1 ∉ wireNames := by decide
  have up : Extends wireNames (.obj [("ok", .bool true)])
      (.obj [("latency", .int 3), ("ok", .bool true)]) :=
    .obj (.cons (.intro _ (.same _)) .nil) latency (.refl _)
  have server : Extends wireNames (.obj [("ok", .bool true), ("version", .str "0.1.0")])
      (.obj [("version", .str "0.1.0"), ("ok", .bool true)]) :=
    .obj (.cons (.intro _ (.same _)) <| .cons (.intro _ (.same _)) .nil)
      (fun e member => absurd member List.not_mem_nil) (.swap ..)
  have postgres : Extends wireNames (.obj [("ok", .bool true)]) (.obj [("ok", .bool true)]) :=
    .same _
  have report : Extends wireNames _ _ :=
    .obj (.cons (.intro "server" server) <| .cons (.intro "postgres" postgres) <|
      .cons (.intro "mongo" up) .nil) uptime (.cons _ (.trans (.swap ..) (.cons _ (.swap ..))))
  have asks : Asks plainAxum { nopeRequest with path := "/health" } .health := .health rfl rfl
  exact (newer_server_read plainAxum .verbatim (storeRepo String "0.1.0") _
    { postgres := .ok (), mongo := .ok () } newerReport ⟨rfl, _, _, rfl, rfl, report⟩).1 _ asks

end CrewList.Server
