/-
# CrewList.Core.Detail -- the Mongo detail document

`crewlist-core`'s `detail.rs`.  The derives are written once against any format
and any codec for `DateTime<Utc>`, which is how the same types travel as JSON and
rest as BSON.
-/
import CrewList.Core.Task

namespace CrewList.Core

open CrewList.Theory.Serde

set_option autoImplicit false

/-- `SCHEMA_VERSION`: schema version written by this build. -/
def schemaVersion : Int32 := 1

structure Note (T : Type) where
  author : String
  body : String
  at_ : T
  deriving DecidableEq

structure Source (T : Type) where
  url : String
  title : Option String
  retrievedAt : T
  deriving DecidableEq

structure Contact where
  name : String
  phone : Option String
  email : Option String
  url : Option String
  deriving DecidableEq

structure TaskDetail (T : Type) where
  taskId : TaskId
  schemaVersion : Int32
  description : String
  notes : List (Note T)
  sources : List (Source T)
  contacts : List Contact
  summary : Option String
  createdAt : T
  updatedAt : T
  deriving DecidableEq

/-- The value a read path yields when no document exists. -/
def TaskDetail.emptyFor {T : Type} (taskId : TaskId) (now : T) : TaskDetail T where
  taskId := taskId
  schemaVersion := Core.schemaVersion
  description := ""
  notes := []
  sources := []
  contacts := []
  summary := none
  createdAt := now
  updatedAt := now

/-! ## The derives -/

section Codecs

variable {V T : Type} [Deserializer V] [Serializer V] [LawfulFormat V]

/-- An `Option<String>` field under `#[serde(default)]`. -/
def defaultedText (name : String) : Field V (Option String) :=
  .defaulted name ((Codec.str V).option (Codec.str_nonNull V)) none

@[simp] theorem defaultedText_name (name : String) :
    (defaultedText name : Field V (Option String)).name = name := rfl

@[simp] theorem defaultedText_absent (name : String) :
    (defaultedText name : Field V (Option String)).absent = some none := rfl

def Note.table (time : Codec V T) : StructTable V (Note T) where
  fields :=
    .cons (.required "author" (.str V)) <|
    .cons (.required "body" (.str V)) <|
    .cons (.required "at" time) .nil
  toRow n := (n.author, n.body, n.at_, ())
  ofRow := fun (author, body, at_, _) => { author, body, at_ }
  ofRow_toRow _ := rfl
  toRow_ofRow _ := rfl
  distinct := by simp

def Source.table (time : Codec V T) : StructTable V (Source T) where
  fields :=
    .cons (.required "url" (.str V)) <|
    .cons (defaultedText "title") <|
    .cons (.required "retrieved_at" time) .nil
  toRow s := (s.url, s.title, s.retrievedAt, ())
  ofRow := fun (url, title, retrievedAt, _) => { url, title, retrievedAt }
  ofRow_toRow _ := rfl
  toRow_ofRow _ := rfl
  distinct := by simp

variable (V) in
def Contact.table : StructTable V Contact where
  fields :=
    .cons (.required "name" (.str V)) <|
    .cons (defaultedText "phone") <|
    .cons (defaultedText "email") <|
    .cons (defaultedText "url") .nil
  toRow c := (c.name, c.phone, c.email, c.url, ())
  ofRow := fun (name, phone, email, url, _) => { name, phone, email, url }
  ofRow_toRow _ := rfl
  toRow_ofRow _ := rfl
  distinct := by simp

def Note.codec (time : Codec V T) : Codec V (Note T) := (Note.table time).codec false

def Source.codec (time : Codec V T) : Codec V (Source T) := (Source.table time).codec false

variable (V) in
def Contact.codec : Codec V Contact := (Contact.table V).codec false

def TaskDetail.table (time : Codec V T) : StructTable V (TaskDetail T) where
  fields :=
    .cons (.required "task_id" (.i64 V)) <|
    .cons (.required "schema_version" (.i32 V)) <|
    .cons (.defaulted "description" (.str V) "") <|
    .cons (.defaulted "notes" (Note.codec time).list []) <|
    .cons (.defaulted "sources" (Source.codec time).list []) <|
    .cons (.defaulted "contacts" (Contact.codec V).list []) <|
    .cons (defaultedText "summary") <|
    .cons (.required "created_at" time) <|
    .cons (.required "updated_at" time) .nil
  toRow d := (d.taskId, d.schemaVersion, d.description, d.notes, d.sources, d.contacts,
    d.summary, d.createdAt, d.updatedAt, ())
  ofRow := fun (taskId, schemaVersion, description, notes, sources, contacts, summary,
    createdAt, updatedAt, _) =>
      { taskId, schemaVersion, description, notes, sources, contacts, summary, createdAt,
        updatedAt }
  ofRow_toRow _ := rfl
  toRow_ofRow _ := rfl
  distinct := by simp

def TaskDetail.codec (time : Codec V T) : Codec V (TaskDetail T) :=
  (TaskDetail.table time).codec false

end Codecs

end CrewList.Core
