/-
# CrewList.Server.Database -- the stores with what is stored in them

Boot sees of the stores whether the migration is applied and how the collection is
validated and indexed.  Here they hold their rows and documents as well: the table
under its constraints (`Tasks`), the collection under its unique indexes (`Details`),
which MongoDB never breaks.  Its validation rule it applies to what is written only:
`collMod` does not look at the documents that are there, and `createIndexes` refuses
if two of them have a key in common.

What MongoDB does with a write is taken from its documentation, for clients as this
program would be one: no write asks for `bypassDocumentValidation`, and an update that
would leave a document as it is writes nothing, so it is none of the writes here
(`Write`, `Details.write`).

* `perform_cases`: that refusal apart, a boot call does to the schema of the stores what
  `Call.run` does, so over documents without a common key the deployment refines `boot`
  (`deployment_refines`);
* `perform_data`: no boot call touches a row or a document;
* `Details.write_schema`: no write touches the validation rule or an index.
-/
import CrewList.Server.Boot
import CrewList.Store.Tasks
import CrewList.Theory.Refinement

namespace CrewList.Server

open CrewList.Core
open CrewList.Store
open CrewList.Theory
open CrewList.Theory.Serde

set_option autoImplicit false

/-! ## Documents under validation and unique indexes -/

/-- What is MongoDB's own: whether a document satisfies a query, and whether two
documents have a key in common under an index on the field. -/
structure Mongo where
  satisfies (query document : Bson) : Bool
  sharesKey (field : String) (d d' : Bson) : Bool

/-- No two of the documents have a key in common. -/
def Mongo.Apart (mongo : Mongo) (field : String) (documents : List Bson) : Prop :=
  documents.Pairwise fun d d' => mongo.sharesKey field d d' = false

instance (mongo : Mongo) (field : String) (documents : List Bson) :
    Decidable (mongo.Apart field documents) :=
  inferInstanceAs (Decidable (List.Pairwise _ _))

variable {mongo : Mongo}

theorem Mongo.Apart.sublist {field : String} {ds es : List Bson} (apart : mongo.Apart field es)
    (sub : ds.Sublist es) : mongo.Apart field ds :=
  List.Pairwise.sublist sub apart

section Validation

variable (mongo)

def CollectionValidator.admits : CollectionValidator → Bson → Bool
  | .jsonSchema schema, d => schema.accepts d
  | .query expression, d => mongo.satisfies expression d

/-- Whether `before` may become `after`, or without a `before` be inserted: `moderate` lets
an invalid document stay invalid, and `warn` only warns. -/
def Validation.permits (v : Validation) (before : Option Bson) (after : Bson) : Bool :=
  match v.validationAction with
  | .warn => true
  | .error | .errorAndLog =>
      match v.validationLevel with
      | .off => true
      | .strict => v.validator.admits mongo after
      | .moderate =>
          before.any (fun d => !v.validator.admits mongo d) || v.validator.admits mongo after

end Validation

/-- The rule this build installs lets in what the detail validator accepts. -/
@[simp] theorem detailValidation_permits (before : Option Bson) (after : Bson) :
    detailValidation.permits mongo before after = detailValidator.accepts after := rfl

/-- The collection: `_id` has a unique index always, `task_id` once it is created. -/
structure Details (mongo : Mongo) where
  validation : Option Validation
  taskIdUnique : Bool
  documents : List Bson
  ids : mongo.Apart "_id" documents
  taskIds : taskIdUnique = true → mongo.Apart "task_id" documents

/-- A write to the collection, without `bypassDocumentValidation`; a document is given as it
is to be stored, `_id` included. -/
inductive Write where
  | insert (document : Bson)
  /-- An update that finds the document at `place` and makes this one, another, of it. -/
  | update (place : Nat) (document : Bson)
  | delete (which : Bson → Bool)

inductive WriteReply where
  | acknowledged | documentValidationFailure | duplicateKey | immutableField
  deriving DecidableEq, Repr

namespace Details

/-- The schema boot sees. -/
def schema (c : Details mongo) : Collection where
  validation := c.validation
  taskIdUnique := c.taskIdUnique

/-- A new collection. -/
def empty (mongo : Mongo) (taskIdUnique : Bool) : Details mongo where
  validation := none
  taskIdUnique := taskIdUnique
  documents := []
  ids := .nil
  taskIds _ := .nil

/-- Hold these documents, if the unique indexes can. -/
def hold (c : Details mongo) (documents : List Bson) : Details mongo × WriteReply :=
  if keys : mongo.Apart "_id" documents ∧
      (c.taskIdUnique = true → mongo.Apart "task_id" documents) then
    ({ c with documents, ids := keys.1, taskIds := keys.2 }, .acknowledged)
  else (c, .duplicateKey)

/-- Store `after` beside `others`, in place of `before` or as a new document. -/
def put (c : Details mongo) (before : Option Bson) (others : List Bson) (after : Bson) :
    Details mongo × WriteReply :=
  if c.validation.all (·.permits mongo before after) then c.hold (others ++ [after])
  else (c, .documentValidationFailure)

/-- A write as MongoDB documents it: the validation rule is asked about what is to be stored,
then the unique indexes; an update may not change the `_id`. -/
def write (c : Details mongo) : Write → Details mongo × WriteReply
  | .insert d => c.put none c.documents d
  | .update place d =>
      match c.documents[place]? with
      | none => (c, .acknowledged)
      | some before =>
          if mongo.sharesKey "_id" before d then
            c.put (some before) (c.documents.eraseIdx place) d
          else (c, .immutableField)
  | .delete which => c.hold (c.documents.filter fun d => !which d)

@[simp] theorem hold_schema (c : Details mongo) (documents : List Bson) :
    (c.hold documents).1.schema = c.schema := by
  unfold hold
  split <;> rfl

@[simp] theorem put_schema (c : Details mongo) (before : Option Bson) (others : List Bson)
    (after : Bson) : (c.put before others after).1.schema = c.schema := by
  unfold put
  split
  · exact c.hold_schema _
  · rfl

/-- A write changes neither the validation rule nor the indexes. -/
@[simp] theorem write_schema (c : Details mongo) (x : Write) :
    (c.write x).1.schema = c.schema := by
  cases x with
  | insert d => exact c.put_schema _ _ _
  | delete which => exact c.hold_schema _
  | update place d =>
      simp only [write]
      split
      · rfl
      · split
        · exact c.put_schema _ _ _
        · rfl

end Details

/-! ## The database and the boot calls -/

/-- Postgres, whose table is there once migration 0001 is applied, and the Mongo
database. -/
structure Database (mongo : Mongo) where
  tasks : Option Tasks
  taskDetails : Option (Details mongo)

/-- The code for a unique index that two documents break. -/
def duplicateKeyCode : Int32 := 11000

namespace Database

/-- What boot sees. -/
def schema (d : Database mongo) : StoreState where
  migrated := d.tasks.isSome
  taskDetails := d.taskDetails.map Details.schema

/-- `MIGRATOR.run`: applies 0001 if it is pending. -/
def migrate (d : Database mongo) : Database mongo × Option Failure :=
  ({ d with tasks := some (d.tasks.getD .empty) }, none)

def create (d : Database mongo) : Database mongo × Option Failure :=
  match d.taskDetails with
  | none => ({ d with taskDetails := some (.empty mongo false) }, none)
  | some _ => (d, some (.command namespaceExists))

def collMod (v : Validation) (d : Database mongo) : Database mongo × Option Failure :=
  match d.taskDetails with
  | none => (d, some (.command namespaceNotFound))
  | some c => ({ d with taskDetails := some { c with validation := some v } }, none)

def createIndexes (d : Database mongo) : Database mongo × Option Failure :=
  match d.taskDetails with
  | none => ({ d with taskDetails := some (.empty mongo true) }, none)
  | some c =>
      if keys : mongo.Apart "task_id" c.documents then
        ({ d with taskDetails := some { c with taskIdUnique := true, taskIds := fun _ => keys } },
          none)
      else (d, some (.command duplicateKeyCode))

end Database

/-- A boot call over the stored data. -/
def Call.perform : Call → Database mongo → Database mongo × Option Failure
  | .connectPostgres, d => (d, none)
  | .connectMongo, d => (d, none)
  | .migrate, d => d.migrate
  | .create, d => d.create
  | .collMod, d => d.collMod detailValidation
  | .createIndexes, d => d.createIndexes
  | .bind, d => (d, none)

/-- `main` up to `axum::serve`, over the stored data. -/
def deployment (mongo : Mongo) : Sequence Call (Database mongo) Failure where
  calls := boot.calls
  run := Call.perform
  tolerates := Call.tolerates

namespace Database

/-- No two documents of the collection have a `task_id` in common. -/
def KeysApart (d : Database mongo) : Prop :=
  ∀ c ∈ d.taskDetails, mongo.Apart "task_id" c.documents

/-- **A boot call over the stored data** does to the schema what it does without them,
unless two documents stand in the way of the index. -/
theorem perform_cases (k : Call) (d : Database mongo) :
    k.run d.schema = ((k.perform d).1.schema, (k.perform d).2) ∨
      (k = .createIndexes ∧ ¬ d.KeysApart ∧
        k.perform d = (d, some (.command duplicateKeyCode))) := by
  obtain ⟨tasks, found⟩ := d
  cases k with
  | create => cases found <;> exact .inl rfl
  | collMod => cases found <;> exact .inl rfl
  | createIndexes =>
      cases found with
      | none => exact .inl rfl
      | some c =>
          by_cases keys : mongo.Apart "task_id" c.documents
          · simp [Call.run, Call.perform, createIndexes, StoreState.createIndexes, schema, keys,
              Details.schema]
          · refine .inr ⟨rfl, fun apart => keys (apart c rfl), ?_⟩
            simp [Call.perform, createIndexes, keys]
  | _ => exact .inl rfl

/-! ## The data -/

/-- The documents; of a collection that is not there, none. -/
def documents (d : Database mongo) : List Bson :=
  match d.taskDetails with
  | none => []
  | some c => c.documents

/-- The table, empty before it is created. -/
def table (d : Database mongo) : Tasks := d.tasks.getD .empty

theorem keysApart_iff {d : Database mongo} :
    d.KeysApart ↔ mongo.Apart "task_id" d.documents := by
  obtain ⟨tasks, found⟩ := d
  cases found with
  | none => exact ⟨fun _ => .nil, fun _ c present => nomatch present⟩
  | some c =>
      constructor
      · exact fun apart => apart c rfl
      · rintro apart c' ⟨⟩
        exact apart

/-- **A boot call touches no row and no document.** -/
theorem perform_data (k : Call) (d : Database mongo) :
    (k.perform d).1.table = d.table ∧ (k.perform d).1.documents = d.documents := by
  obtain ⟨tasks, found⟩ := d
  cases k with
  | create => cases found <;> exact ⟨rfl, rfl⟩
  | collMod => cases found <;> exact ⟨rfl, rfl⟩
  | createIndexes =>
      cases found with
      | none => exact ⟨rfl, rfl⟩
      | some c =>
          simp only [Call.perform, createIndexes]
          split <;> exact ⟨rfl, rfl⟩
  | _ => exact ⟨rfl, rfl⟩

/-- Nor does one that meets a fault. -/
theorem exec_data (k : Call) (fault : Fault Failure) (d : Database mongo) :
    ((deployment mongo).exec k fault d).1.table = d.table ∧
      ((deployment mongo).exec k fault d).1.documents = d.documents := by
  cases fault with
  | none => exact perform_data k d
  | before e => exact ⟨rfl, rfl⟩
  | after e => exact perform_data k d

/-- No step of a server does. -/
theorem step_data {ι : Type} [DecidableEq ι] {w w' : World ι Call (Database mongo)}
    {l : Label ι Call Failure} (step : Step (deployment mongo) w l w') :
    w'.store.table = w.store.table ∧ w'.store.documents = w.store.documents := by
  cases step with
  | boot down => exact ⟨rfl, rfl⟩
  | call fault next => exact exec_data _ fault w.store
  | die up => exact ⟨rfl, rfl⟩

/-- **The boot over the stored data refines `boot`**, as long as no two documents have a
`task_id` in common. -/
theorem deployment_refines :
    Refines (deployment mongo) boot schema fun d => mongo.Apart "task_id" d.documents where
  calls := rfl
  tolerates := rfl
  run k d apart := by
    rcases perform_cases k d with same | ⟨-, common, -⟩
    · exact same
    · exact absurd (keysApart_iff.mpr apart) common
  keeps k d apart := by
    show mongo.Apart "task_id" (k.perform d).1.documents
    rwa [(perform_data k d).2]

/-- Whatever documents there are, a call that is let through leaves its fact, and no
call undoes one. -/
theorem deployment_establishes :
    Establishes (deployment mongo) (fun _ _ => True) fun k d => k.fact d.schema where
  passed k fault d _ passes := by
    rcases perform_cases k d with same | ⟨rfl, -, refused⟩
    · have executed : boot.exec k fault d.schema =
          (((deployment mongo).exec k fault d).1.schema,
            ((deployment mongo).exec k fault d).2) := by
        cases fault with
        | none => exact same
        | before e => rfl
        | after e =>
            show ((k.run d.schema).1, some e) = _
            rw [same]
            rfl
      have left := boot_establishes.passed k fault d.schema trivial (by rwa [executed])
      rwa [executed] at left
    -- the refusal is not the error `create` is let through with
    · have failed : ∃ e, ((deployment mongo).exec .createIndexes fault d).2 = some e := by
        cases fault with
        | none => exact ⟨_, congrArg Prod.snd refused⟩
        | before e => exact ⟨e, rfl⟩
        | after e => exact ⟨e, rfl⟩
      obtain ⟨e, failed⟩ := failed
      cases (passes_iff.mp passes e failed).1
  stable j k d holds := by
    rcases perform_cases k d with same | ⟨-, -, unchanged⟩
    · have kept := fact_stable j k holds
      rwa [same] at kept
    · show j.fact (k.perform d).1.schema
      rwa [unchanged]

/-! ## Statements and writes -/

/-- A statement against the table; there is nothing it can do without one. -/
def statement (d : Database mongo) (x : Tasks.Statement) : Database mongo :=
  { d with tasks := d.tasks.map fun t => t.execute x }

/-- A write to the collection; an insert creates a missing one. -/
def write (d : Database mongo) (x : Write) : Database mongo × WriteReply :=
  match d.taskDetails, x with
  | some c, _ => ({ d with taskDetails := some (c.write x).1 }, (c.write x).2)
  | none, .insert _ =>
      let written := (Details.empty mongo false).write x
      ({ d with taskDetails := some written.1 }, written.2)
  | none, _ => (d, .acknowledged)

theorem write_of_present {d : Database mongo} {c : Details mongo} (present : d.taskDetails = some c)
    (x : Write) :
    d.write x = ({ d with taskDetails := some (c.write x).1 }, (c.write x).2) := by
  simp only [write, present]

@[simp] theorem statement_schema (d : Database mongo) (x : Tasks.Statement) :
    (d.statement x).schema = d.schema := by
  simp [statement, schema]

/-- Over a collection that is there, a write leaves the schema. -/
theorem write_schema {d : Database mongo} (present : d.taskDetails ≠ none) (x : Write) :
    (d.write x).1.schema = d.schema := by
  obtain ⟨c, found⟩ := Option.ne_none_iff_exists'.mp present
  rw [write_of_present found]
  simp [schema, found]

/-- An installed collection. -/
theorem installed_details {d : Database mongo} (installed : Installed d.schema) :
    ∃ c, d.taskDetails = some c ∧ c.validation = some detailValidation ∧ c.taskIdUnique = true := by
  obtain ⟨-, c', present, validation, unique⟩ := installed
  obtain ⟨c, found, rfl⟩ := Option.map_eq_some_iff.mp present
  exact ⟨c, found, validation, unique⟩

/-- Under the unique index no two documents have a `task_id` in common. -/
theorem installed_apart {d : Database mongo} (installed : Installed d.schema) :
    mongo.Apart "task_id" d.documents := by
  obtain ⟨c, present, -, unique⟩ := installed_details installed
  rw [documents, present]
  exact c.taskIds unique

theorem installed_table {d : Database mongo} (installed : Installed d.schema) :
    ∃ t, d.tasks = some t :=
  Option.isSome_iff_exists.mp installed.1

end Database

end CrewList.Server
