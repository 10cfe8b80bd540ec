/-
# CrewList.Core.Task -- the task record, its status and its origin

`crewlist-core`'s `status.rs` and `task.rs`.  The timestamp type `T` and its codec
are parameters: the record is chrono's client, not its implementation.
-/
import CrewList.Theory.Derive

namespace CrewList.Core

open CrewList.Theory.Serde

set_option autoImplicit false

/-- `type TaskId = i64`. -/
abbrev TaskId := Int64

/-- `TITLE_MAX_CHARS`: maximum title length in characters, after trimming. -/
def titleMaxChars : Nat := 500

/-! ## Timestamps -/

/-- `DateTime<Utc>` under chrono's default serde form, a text. -/
abbrev isoTime (V : Type) {T : Type} [Deserializer V] [Serializer V] [LawfulFormat V]
    (form : TextForm T) : Codec V T :=
  .text V form

/-! ## Status and origin -/

inductive TaskStatus where
  | todo | handedOff | done | cancelled
  deriving DecidableEq, Repr

namespace TaskStatus

def asStr : TaskStatus → String
  | .todo => "todo"
  | .handedOff => "handed_off"
  | .done => "done"
  | .cancelled => "cancelled"

def variants : List TaskStatus := [.todo, .handedOff, .done, .cancelled]

theorem asStr_injective : Function.Injective asStr := by
  intro a b same
  cases a <;> cases b <;> first | rfl | exact absurd same (by decide)

theorem mem_variants (s : TaskStatus) : s ∈ variants := by cases s <;> decide

end TaskStatus

inductive TaskOrigin where
  | human | agent
  deriving DecidableEq, Repr

namespace TaskOrigin

def asStr : TaskOrigin → String
  | .human => "human"
  | .agent => "agent"

def variants : List TaskOrigin := [.human, .agent]

theorem asStr_injective : Function.Injective asStr := by
  intro a b same
  cases a <;> cases b <;> first | rfl | exact absurd same (by decide)

theorem mem_variants (o : TaskOrigin) : o ∈ variants := by cases o <;> decide

end TaskOrigin

section Codecs

variable (V : Type) [EnumAccess V] [Serializer V] [LawfulEnum V]

/-- The `snake_case` names serde derives are those of `as_str`. -/
def TaskStatus.codec : Codec V TaskStatus :=
  .unitEnum V TaskStatus.asStr TaskStatus.variants TaskStatus.asStr_injective
    TaskStatus.mem_variants

def TaskOrigin.codec : Codec V TaskOrigin :=
  .unitEnum V TaskOrigin.asStr TaskOrigin.variants TaskOrigin.asStr_injective
    TaskOrigin.mem_variants

end Codecs

/-! ## The record -/

structure Task (T : Type) where
  id : TaskId
  title : String
  status : TaskStatus
  origin : TaskOrigin
  parentId : Option TaskId
  agentEligible : Bool
  summary : Option String
  createdAt : T
  updatedAt : T
  handedOffAt : Option T
  completedAt : Option T
  deriving DecidableEq

namespace Task

variable {T V : Type} [Deserializer V] [Serializer V] [LawfulFormat V] [EnumAccess V]
  [LawfulEnum V]

def table (time : Codec V T) (nonNull : time.NonNull) : StructTable V (Task T) where
  fields :=
    .cons (.required "id" (.i64 V)) <|
    .cons (.required "title" (.str V)) <|
    .cons (.required "status" (TaskStatus.codec V)) <|
    .cons (.required "origin" (TaskOrigin.codec V)) <|
    .cons (.optional "parent_id" (.i64 V) (Codec.i64_nonNull V)) <|
    .cons (.required "agent_eligible" (.bool V)) <|
    .cons (.optional "summary" (.str V) (Codec.str_nonNull V)) <|
    .cons (.required "created_at" time) <|
    .cons (.required "updated_at" time) <|
    .cons (.optional "handed_off_at" time nonNull) <|
    .cons (.optional "completed_at" time nonNull) .nil
  toRow t := (t.id, t.title, t.status, t.origin, t.parentId, t.agentEligible, t.summary,
    t.createdAt, t.updatedAt, t.handedOffAt, t.completedAt, ())
  ofRow := fun (id, title, status, origin, parentId, agentEligible, summary, createdAt,
    updatedAt, handedOffAt, completedAt, _) =>
      { id, title, status, origin, parentId, agentEligible, summary, createdAt, updatedAt,
        handedOffAt, completedAt }
  ofRow_toRow _ := rfl
  toRow_ofRow _ := rfl
  distinct := by simp

def codec (time : Codec V T) (nonNull : time.NonNull) : Codec V (Task T) :=
  (table time nonNull).codec false

end Task

end CrewList.Core
