/-
# CrewList.Server.Create -- what `POST /tasks` forwards

A JSON object reaches `TaskRepo::create` through `CreateTaskRequest`'s derive, which
unlike the two query types does not deny unknown fields.  `Fits` says, member by
member, when an object is read as a request; `Forwarded` is what the caller may
expect of the request that arrives: everything said is in it, and only what was not
said is defaulted.  `create_exact` is that the handler keeps this, or refuses,
exactly when it refuses or the object has no member under another key.
-/
import CrewList.Server.Router

namespace CrewList.Server

open CrewList.Core
open CrewList.Theory.Serde

set_option autoImplicit false

/-! ## An object and a request -/

def fieldNames : List String :=
  ["title", "description", "parent_id", "origin", "agent_eligible", "sources"]

/-- The field of `r` named `key` holds what the member value `v` gives it. -/
def Holds (r : CreateTaskRequest) (key : String) (v : Json) : Prop :=
  (key = "title" ∧ v = .str r.title) ∨
    (key = "description" ∧
      ((v = .null ∧ r.description = none) ∨ ∃ s, v = .str s ∧ r.description = some s)) ∨
    (key = "parent_id" ∧
      ((v = .null ∧ r.parentId = none) ∨ ∃ n, v = .int n.toInt ∧ r.parentId = some n)) ∨
    (key = "origin" ∧ (v = .str r.origin.asStr ∨ v = .obj [(r.origin.asStr, .null)])) ∨
    (key = "agent_eligible" ∧ v = .bool r.agentEligible) ∨
    (key = "sources" ∧ v = .arr (r.sources.map .str))

/-- The field of `r` named `key` has a default, and holds it. -/
def Defaulted (r : CreateTaskRequest) (key : String) : Prop :=
  (key = "description" ∧ r.description = none) ∨ (key = "parent_id" ∧ r.parentId = none) ∨
    (key = "agent_eligible" ∧ r.agentEligible = true) ∨ (key = "sources" ∧ r.sources = [])

/-- Everything the members say is in the request, and only what they do not say is
defaulted. -/
def Forwarded (r : CreateTaskRequest) (members : List (String × Json)) : Prop :=
  (∀ m ∈ members, Holds r m.1 m.2) ∧
    ∀ key ∈ fieldNames, key ∉ members.map Prod.fst → Defaulted r key

/-- The key is there once with the value of its field in `r`, or is missing and the
field defaulted. -/
def FitsAt (r : CreateTaskRequest) (members : List (String × Json)) (key : String) : Prop :=
  (∃ v, valuesAt members key = [v] ∧ Holds r key v) ∨
    (valuesAt members key = [] ∧ Defaulted r key)

/-- The object is read as `r`: all six keys fit. -/
def Fits (r : CreateTaskRequest) (members : List (String × Json)) : Prop :=
  ∀ key ∈ fieldNames, FitsAt r members key

/-! ## What the derive reads -/

theorem text_eq_ok {v : Json} {a : Option String} :
    ((Codec.str Json).option (Codec.str_nonNull Json)).decode v = .ok a ↔
      (v = .null ∧ a = none) ∨ ∃ s, v = .str s ∧ a = some s := by
  rw [Json.decode_option_eq_ok]
  simp only [Json.decode_str_eq_ok]
  refine or_congr_right ⟨?_, ?_⟩
  · rintro ⟨-, s, rfl, rfl⟩
    exact ⟨s, rfl, rfl⟩
  · rintro ⟨s, rfl, rfl⟩
    exact ⟨nofun, s, rfl, rfl⟩

theorem id_eq_ok {v : Json} {a : Option TaskId} :
    ((Codec.i64 Json).option (Codec.i64_nonNull Json)).decode v = .ok a ↔
      (v = .null ∧ a = none) ∨ ∃ n, v = .int n.toInt ∧ a = some n := by
  rw [Json.decode_option_eq_ok]
  simp only [Json.decode_i64_eq_ok]
  refine or_congr_right ⟨?_, ?_⟩
  · rintro ⟨-, n, rfl, rfl⟩
    exact ⟨n, rfl, rfl⟩
  · rintro ⟨n, rfl, rfl⟩
    exact ⟨nofun, n, rfl, rfl⟩

theorem texts_eq_ok {v : Json} {as : List String} :
    (Codec.str Json).list.decode v = .ok as ↔ v = .arr (as.map .str) := by
  rw [Json.decode_list_eq_ok]
  simp only [Json.decode_str_eq_ok]
  have pointwise : ∀ vs : List Json,
      List.Forall₂ (fun v s => v = .str s) vs as ↔ vs = as.map .str := fun vs => by
    rw [← List.forall₂_eq_eq_eq, List.forall₂_map_right_iff]
  constructor
  · rintro ⟨vs, rfl, each⟩
    rw [(pointwise vs).mp each]
  · rintro rfl
    exact ⟨_, rfl, (pointwise _).mpr rfl⟩

section Derive

variable {r : CreateTaskRequest} {members : List (String × Json)}

/-- One field against its key. -/
theorem reads_iff {α : Type} {f : Field Json α} {a : α}
    (holds : ∀ v, f.decode v = .ok a ↔ Holds r f.name v)
    (default : f.absent = some a ↔ Defaulted r f.name) :
    f.Reads members a ↔ FitsAt r members f.name := by
  simp only [Field.Reads, FitsAt, holds, default]

theorem required_reads_iff {α : Type} {name : String} {c : Codec Json α} {a : α}
    (holds : ∀ v, c.decode v = .ok a ↔ Holds r name v) (needed : ¬ Defaulted r name) :
    (Field.required name c).Reads members a ↔ FitsAt r members name :=
  reads_iff holds ⟨nofun, fun defaulted => absurd defaulted needed⟩

theorem defaulted_reads_iff {α : Type} {name : String} {c : Codec Json α} {d a : α}
    (holds : ∀ v, c.decode v = .ok a ↔ Holds r name v) (default : a = d ↔ Defaulted r name) :
    (Field.defaulted name c d).Reads members a ↔ FitsAt r members name :=
  reads_iff holds (Option.some_inj.trans (eq_comm.trans default))

/-- **`CreateTaskRequest`.** -/
theorem createTaskRequest_decode :
    (CreateTaskRequest.codec Json).decode (.obj members) = .ok r ↔ Fits r members := by
  have shape : deserializeStruct (Json.obj members) = .ok (.entries members) := rfl
  rw [CreateTaskRequest.codec, StructTable.codec,
    (CreateTaskRequest.table Json).decode_entries_eq_ok false shape]
  simp only [Fits, fieldNames, List.forall_mem_cons]
  refine (and_iff_left nofun).trans ?_
  refine and_congr (required_reads_iff (fun v => ?_) ?_) <|
    and_congr (defaulted_reads_iff (fun v => ?_) ?_) <|
    and_congr (defaulted_reads_iff (fun v => ?_) ?_) <|
    and_congr (required_reads_iff (fun v => ?_) ?_) <|
    and_congr (defaulted_reads_iff (fun v => ?_) ?_) <|
    and_congr (defaulted_reads_iff (fun v => ?_) ?_) ?_
  · exact Json.decode_str_eq_ok.trans (by simp [Holds])
  · simp [Defaulted]
  · exact text_eq_ok.trans (by simp [Holds])
  · simp [Defaulted]
  · exact id_eq_ok.trans (by simp [Holds])
  · simp [Defaulted]
  · exact Json.decode_unitEnum_eq_ok.trans (by simp [Holds])
  · simp [Defaulted]
  · exact Json.decode_bool_eq_ok.trans (by simp [Holds])
  · simp [Defaulted, defaultTrue]
  · exact texts_eq_ok.trans (by simp [Holds])
  · simp [Defaulted]
  · simp [Fields.Reads]

theorem Holds.known {key : String} {v : Json} (holds : Holds r key v) : key ∈ fieldNames := by
  rcases holds with ⟨rfl, -⟩ | ⟨rfl, -⟩ | ⟨rfl, -⟩ | ⟨rfl, -⟩ | ⟨rfl, -⟩ | ⟨rfl, -⟩ <;> decide

/-- An object that is read as `r` is forwarded by it exactly when it has no other
key. -/
theorem Fits.forwarded_iff (fits : Fits r members) :
    Forwarded r members ↔ ∀ m ∈ members, m.1 ∈ fieldNames := by
  constructor
  · exact fun forwarded m member => (forwarded.1 m member).known
  · intro known
    refine ⟨fun m member => ?_, fun key field missing => ?_⟩
    · have here : m.2 ∈ valuesAt members m.1 := mem_valuesAt.mpr member
      rcases fits m.1 (known m member) with ⟨v, once, holds⟩ | ⟨absent, -⟩
      · rw [once, List.mem_singleton] at here
        rwa [here]
      · rw [absent] at here
        cases here
    · rcases fits key field with ⟨v, once, -⟩ | ⟨-, defaulted⟩
      · rw [valuesAt_eq_nil.mpr missing] at once
        cases once
      · exact defaulted

end Derive

/-! ## What the handler does with it -/

section Requests

variable {σ T : Type}

/-- The body is a JSON object with these members. -/
def Sends (axum : Axum) (req : Request) (bytes : List UInt8) (members : List (String × Json)) :
    Prop :=
  req.method = .post ∧ req.path = "/tasks" ∧ req.body = some bytes ∧
    axum.parseJson bytes = some (.obj members)

/-- `create` was called, once, with a request that forwards the members; or the request
was refused. -/
def ForwardsOrRefuses (result : Response × σ × List (Exchange T))
    (members : List (String × Json)) : Prop :=
  (∃ r reply, result.2.2 = [.create r reply] ∧ Forwarded r members) ∨ Refused result

/-- What comes of an object depends on its being announced as JSON, within the limit
and read as a request. -/
theorem create_cases {axum : Axum} {form : TextForm T} {repo : TaskRepo σ T} {req : Request}
    {bytes : List UInt8} {members : List (String × Json)} (sends : Sends axum req bytes members)
    (s : σ) :
    (∀ r, (∃ reply, (observe axum form repo req s).2.2 = [.create r reply]) ↔
        axum.isJsonContent req.headers = true ∧ bytes.length ≤ bodyLimit ∧ Fits r members) ∧
      ((∀ r, ¬ (axum.isJsonContent req.headers = true ∧ bytes.length ≤ bodyLimit ∧
        Fits r members)) → Refused (observe axum form repo req s)) := by
  obtain ⟨method, path, body, parsed⟩ := sends
  have extracted : ∀ {r}, axum.appJson (CreateTaskRequest.codec Json).decode req = .ok r ↔
      axum.isJsonContent req.headers = true ∧ bytes.length ≤ bodyLimit ∧ Fits r members := by
    intro r
    rw [Axum.appJson_ok, body]
    refine and_congr_right fun _ => ⟨?_, fun ⟨fits, read⟩ => ?_⟩
    · rintro ⟨_, v, ⟨⟩, fits, parsed', decoded⟩
      rw [parsed] at parsed'
      cases parsed'
      exact ⟨fits, createTaskRequest_decode.mp decoded⟩
    · exact ⟨bytes, _, rfl, fits, parsed, createTaskRequest_decode.mpr read⟩
  rw [observe_create method path]
  apply handle_exact Exchange.create
  · exact fun same => (Exchange.create.inj same).1
  · exact fun _ => Axum.validated_error
  · exact fun _ => extracted

/-- **When `POST /tasks` forwards everything.**  For every JSON object: `create` is
called once with all that was said, or the request is refused, if and only if every
key of the object is a field's, or the object is not announced as JSON, or too large,
or not read as a request at all. -/
theorem create_exact (axum : Axum) (form : TextForm T) (repo : TaskRepo σ T) (s : σ)
    (req : Request) (bytes : List UInt8) (members : List (String × Json))
    (sends : Sends axum req bytes members) :
    ForwardsOrRefuses (observe axum form repo req s) members ↔
      (∀ m ∈ members, m.1 ∈ fieldNames) ∨
        axum.isJsonContent req.headers = false ∨ bodyLimit < bytes.length ∨
        ¬ ∃ r, Fits r members := by
  have ⟨called, refused⟩ := @create_cases σ T axum form repo req bytes members sends s
  by_cases read : axum.isJsonContent req.headers = true ∧ bytes.length ≤ bodyLimit ∧
      ∃ r, Fits r members
  · obtain ⟨content, within, r, fits⟩ := read
    obtain ⟨reply, log⟩ := (called r).mpr ⟨content, within, fits⟩
    have forwards : ForwardsOrRefuses (observe axum form repo req s) members ↔
        Forwarded r members := by
      constructor
      · rintro (⟨r', reply', log', forwarded⟩ | ⟨empty, -⟩)
        · rw [log] at log'
          cases log'
          exact forwarded
        · rw [log] at empty
          cases empty
      · exact fun forwarded => .inl ⟨r, reply, log, forwarded⟩
    rw [forwards, fits.forwarded_iff]
    refine (or_iff_left ?_).symm
    rintro (plain | large | unread)
    · rw [content] at plain
      cases plain
    · omega
    · exact unread ⟨r, fits⟩
  · refine iff_of_true (.inr (refused fun r all => read ⟨all.1, all.2.1, r, all.2.2⟩)) (.inr ?_)
    by_cases content : axum.isJsonContent req.headers = true
    · by_cases within : bytes.length ≤ bodyLimit
      · exact .inr (.inr fun found => read ⟨content, within, found⟩)
      · exact .inr (.inl (by omega))
    · exact .inl (by simpa using content)

end Requests

/-! ## A misspelt key -/

/-- `POST /tasks` with a JSON text. -/
def postTask (text : String) : Request where
  method := .post
  path := "/tasks"
  query := none
  headers := [("content-type", "application/json")]
  body := some (utf8 text)

def buyMilk : String := "\x7b\"title\":\"buy milk\",\"origin\":\"human\"\x7d"

/-- `agent_eligible` misspelt: the task is created eligible. -/
def buyMilkMyself : String :=
  "\x7b\"title\":\"buy milk\",\"origin\":\"human\",\"agent_eligable\":false\x7d"

def buyMilkMembers : List (String × Json) := [("title", .str "buy milk"), ("origin", .str "human")]

def buyMilkMyselfMembers : List (String × Json) :=
  buyMilkMembers ++ [("agent_eligable", .bool false)]

/-- The stack on the two texts. -/
def milkAxum : Axum :=
  tabledAxum [] [(buyMilk, .obj buyMilkMembers), (buyMilkMyself, .obj buyMilkMyselfMembers)]

/-- A well-spelt request is forwarded. -/
theorem well_spelt_forwarded :
    ForwardsOrRefuses (observe milkAxum .verbatim (storeRepo String "0.1.0") (postTask buyMilk)
      storesUp) buyMilkMembers :=
  (create_exact milkAxum .verbatim (storeRepo String "0.1.0") storesUp (postTask buyMilk) _ _
    ⟨rfl, rfl, rfl, rfl⟩).mpr (.inl (by decide))

/-- The misspelt member is dropped, and the key it meant takes its default. -/
theorem misspelt_dropped :
    ¬ ∀ (axum : Axum) (form : TextForm String) (repo : TaskRepo Stores String) (s : Stores)
      (req : Request) (bytes : List UInt8) (members : List (String × Json)),
      Sends axum req bytes members → ForwardsOrRefuses (observe axum form repo req s) members := by
  intro claimed
  have sends : Sends milkAxum (postTask buyMilkMyself) (utf8 buyMilkMyself) buyMilkMyselfMembers :=
    ⟨rfl, rfl, rfl, rfl⟩
  rcases claimed _ .verbatim (storeRepo String "0.1.0") storesUp _ _ _ sends with
    ⟨r, reply, -, forwarded⟩ | ⟨uncalled, -⟩
  · have known := (forwarded.1 ("agent_eligable", .bool false) (by simp [buyMilkMyselfMembers])).known
    exact absurd known (by decide)
  · have eligible : Fits ⟨"buy milk", none, none, .human, true, []⟩ buyMilkMyselfMembers :=
      createTaskRequest_decode.mp rfl
    obtain ⟨reply, called⟩ := ((create_cases sends _).1 _).mpr ⟨by decide, by decide, eligible⟩
    rw [called] at uncalled
    cases uncalled

end CrewList.Server
