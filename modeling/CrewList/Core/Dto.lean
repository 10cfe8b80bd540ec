/-
# CrewList.Core.Dto -- the wire types

`crewlist-core`'s `dto.rs`.  Bodies are written against any format; the two query
types only ever travel as query strings, and only they deny unknown fields.
-/
import CrewList.Core.Detail
import CrewList.Core.Error
import CrewList.Theory.QueryString

namespace CrewList.Core

open CrewList.Theory.Serde

set_option autoImplicit false

/-! ## Bodies -/

/-- `POST /tasks` -/
structure CreateTaskRequest where
  title : String
  description : Option String
  parentId : Option TaskId
  origin : TaskOrigin
  agentEligible : Bool
  sources : List String
  deriving DecidableEq

def defaultTrue : Bool := true

/-- `GET /tasks/{id}`: the task, its payload and its children. -/
structure TaskView (T : Type) where
  task : Task T
  detail : TaskDetail T
  children : List (Task T)

structure TaskListResponse (T : Type) where
  tasks : List (Task T)

/-- `POST /tasks` response. -/
structure CreatedTask where
  id : TaskId
  deriving DecidableEq

structure DeletedTask where
  id : TaskId
  cascaded : List TaskId
  deriving DecidableEq

structure ComponentHealth where
  ok : Bool
  version : Option String
  message : Option String
  deriving DecidableEq

namespace ComponentHealth

/-- `ComponentHealth::ok()`. -/
def healthy : ComponentHealth := { ok := true, version := none, message := none }

def okWithVersion (version : String) : ComponentHealth :=
  { ok := true, version := some version, message := none }

def failed (message : String) : ComponentHealth :=
  { ok := false, version := none, message := some message }

end ComponentHealth

/-- `GET /health` -/
structure HealthResponse where
  server : ComponentHealth
  postgres : ComponentHealth
  mongo : ComponentHealth
  deriving DecidableEq

def HealthResponse.allOk (h : HealthResponse) : Bool :=
  h.server.ok && h.postgres.ok && h.mongo.ok

section Codecs

variable {V T : Type} [Deserializer V] [Serializer V] [LawfulFormat V]

section Enums

variable (V) [EnumAccess V] [LawfulEnum V]

def CreateTaskRequest.table : StructTable V CreateTaskRequest where
  fields :=
    .cons (.required "title" (.str V)) <|
    .cons (defaultedText "description") <|
    .cons (.defaulted "parent_id" ((Codec.i64 V).option (Codec.i64_nonNull V)) none) <|
    .cons (.required "origin" (TaskOrigin.codec V)) <|
    .cons (.defaulted "agent_eligible" (.bool V) defaultTrue) <|
    .cons (.defaulted "sources" (Codec.str V).list []) .nil
  toRow r := (r.title, r.description, r.parentId, r.origin, r.agentEligible, r.sources, ())
  ofRow := fun (title, description, parentId, origin, agentEligible, sources, _) =>
    { title, description, parentId, origin, agentEligible, sources }
  ofRow_toRow _ := rfl
  toRow_ofRow _ := rfl
  distinct := by simp

def CreateTaskRequest.codec : Codec V CreateTaskRequest :=
  (CreateTaskRequest.table V).codec false

variable {V}

def TaskView.table (time : Codec V T) (nonNull : time.NonNull) : StructTable V (TaskView T) where
  fields :=
    .cons (.required "task" (Task.codec time nonNull)) <|
    .cons (.required "detail" (TaskDetail.codec time)) <|
    .cons (.required "children" (Task.codec time nonNull).list) .nil
  toRow v := (v.task, v.detail, v.children, ())
  ofRow := fun (task, detail, children, _) => { task, detail, children }
  ofRow_toRow _ := rfl
  toRow_ofRow _ := rfl
  distinct := by simp

def TaskView.codec (time : Codec V T) (nonNull : time.NonNull) : Codec V (TaskView T) :=
  (TaskView.table time nonNull).codec false

def TaskListResponse.table (time : Codec V T) (nonNull : time.NonNull) :
    StructTable V (TaskListResponse T) where
  fields := .cons (.required "tasks" (Task.codec time nonNull).list) .nil
  toRow r := (r.tasks, ())
  ofRow := fun (tasks, _) => { tasks }
  ofRow_toRow _ := rfl
  toRow_ofRow _ := rfl
  distinct := by simp

def TaskListResponse.codec (time : Codec V T) (nonNull : time.NonNull) :
    Codec V (TaskListResponse T) :=
  (TaskListResponse.table time nonNull).codec false

end Enums

variable (V)

def CreatedTask.table : StructTable V CreatedTask where
  fields := .cons (.required "id" (.i64 V)) .nil
  toRow c := (c.id, ())
  ofRow := fun (id, _) => { id }
  ofRow_toRow _ := rfl
  toRow_ofRow _ := rfl
  distinct := by simp

def CreatedTask.codec : Codec V CreatedTask := (CreatedTask.table V).codec false

def DeletedTask.table : StructTable V DeletedTask where
  fields :=
    .cons (.required "id" (.i64 V)) <|
    .cons (.required "cascaded" (Codec.i64 V).list) .nil
  toRow d := (d.id, d.cascaded, ())
  ofRow := fun (id, cascaded, _) => { id, cascaded }
  ofRow_toRow _ := rfl
  toRow_ofRow _ := rfl
  distinct := by simp

def DeletedTask.codec : Codec V DeletedTask := (DeletedTask.table V).codec false

def ComponentHealth.table : StructTable V ComponentHealth where
  fields :=
    .cons (.required "ok" (.bool V)) <|
    .cons (.skipNone "version" (.str V) (Codec.str_nonNull V)) <|
    .cons (.skipNone "message" (.str V) (Codec.str_nonNull V)) .nil
  toRow h := (h.ok, h.version, h.message, ())
  ofRow := fun (ok, version, message, _) => { ok, version, message }
  ofRow_toRow _ := rfl
  toRow_ofRow _ := rfl
  distinct := by simp

def ComponentHealth.codec : Codec V ComponentHealth := (ComponentHealth.table V).codec false

def HealthResponse.table : StructTable V HealthResponse where
  fields :=
    .cons (.required "server" (ComponentHealth.codec V)) <|
    .cons (.required "postgres" (ComponentHealth.codec V)) <|
    .cons (.required "mongo" (ComponentHealth.codec V)) .nil
  toRow h := (h.server, h.postgres, h.mongo, ())
  ofRow := fun (server, postgres, mongo, _) => { server, postgres, mongo }
  ofRow_toRow _ := rfl
  toRow_ofRow _ := rfl
  distinct := by simp

def HealthResponse.codec : Codec V HealthResponse := (HealthResponse.table V).codec false

end Codecs

/-! ## Queries -/

inductive Queue where
  | agent | human
  deriving DecidableEq, Repr

namespace Queue

/-- The `snake_case` names serde derives. -/
def name : Queue → String
  | .agent => "agent"
  | .human => "human"

def variants : List Queue := [.agent, .human]

theorem name_injective : Function.Injective name := by
  intro a b same
  cases a <;> cases b <;> first | rfl | exact absurd same (by decide)

theorem mem_variants (q : Queue) : q ∈ variants := by cases q <;> decide

def codec : Codec Query Queue := Query.unitEnum name variants name_injective mem_variants

end Queue

/-- `GET /tasks` filters; `deny_unknown_fields` is load-bearing. -/
structure ListQuery where
  queue : Option Queue
  status : Option TaskStatus
  all : Bool
  deriving DecidableEq

/-- `DELETE /tasks/{id}` -/
structure DeleteQuery where
  force : Bool
  deriving DecidableEq

namespace ListQuery

def statusCodec : Codec Query TaskStatus :=
  Query.unitEnum TaskStatus.asStr TaskStatus.variants TaskStatus.asStr_injective
    TaskStatus.mem_variants

def table : StructTable Query ListQuery where
  fields :=
    .cons (Query.optional "queue" Queue.codec) <|
    .cons (Query.optional "status" statusCodec) <|
    .cons (.defaulted "all" Query.bool false) .nil
  toRow q := (q.queue, q.status, q.all, ())
  ofRow := fun (queue, status, all, _) => { queue, status, all }
  ofRow_toRow _ := rfl
  toRow_ofRow _ := rfl
  distinct := by simp

/-- `#[serde(deny_unknown_fields)]` -/
def decode : Query → Decoded ListQuery := table.decode true

/-- The pairs a client writes; a filter that is `None` has none. -/
def pairs (q : ListQuery) : List (String × String) :=
  Query.written (table.fields.entries (table.toRow q))

theorem decode_pairs (q : ListQuery) : decode (.pairs q.pairs) = .ok q := by
  refine Query.decode_written table fun e member => ?_
  obtain ⟨queue, status, all⟩ := q
  have which : e = ("all", Query.bool.encode all) ∨ (∃ x, e = ("queue", Queue.codec.encode x)) ∨
      ∃ x, e = ("status", statusCodec.encode x) := by
    cases queue <;> cases status <;>
      simp [table, Fields.entries, Query.optional, Field.defaulted, Field.written] at member <;>
      grind
  rcases which with rfl | ⟨x, rfl⟩ | ⟨x, rfl⟩ <;> exact ⟨_, rfl⟩

end ListQuery

namespace DeleteQuery

def table : StructTable Query DeleteQuery where
  fields := .cons (.defaulted "force" Query.bool false) .nil
  toRow q := (q.force, ())
  ofRow := fun (force, _) => { force }
  ofRow_toRow _ := rfl
  toRow_ofRow _ := rfl
  distinct := by simp

/-- `#[serde(deny_unknown_fields)]` -/
def decode : Query → Decoded DeleteQuery := table.decode true

def pairs (q : DeleteQuery) : List (String × String) :=
  Query.written (table.fields.entries (table.toRow q))

theorem decode_pairs (q : DeleteQuery) : decode (.pairs q.pairs) = .ok q := by
  refine Query.decode_written table fun e member => ?_
  rw [List.mem_singleton.mp member]
  exact ⟨_, rfl⟩

end DeleteQuery

end CrewList.Core
