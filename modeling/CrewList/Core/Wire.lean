/-
# CrewList.Core.Wire -- the JSON wire format

The bodies the two sides exchange, as JSON.  Each type's round trip is its
codec's (`Codec.decode_encode`); what this module adds is that the client can
tell the two kinds of body apart.  A success body never has the key `error`, which
an error body needs, and an error body has no key any success type needs, so
neither decodes as the other.
-/
import CrewList.Core.Dto
import CrewList.Theory.Json

namespace CrewList.Core

open CrewList.Theory.Serde

set_option autoImplicit false

variable {T : Type}

/-! ## The body types over JSON -/

section Bodies

variable (form : TextForm T)

def taskViewJson : Codec Json (TaskView T) :=
  TaskView.codec (isoTime Json form) (Codec.text_nonNull Json form)

def taskListResponseJson : Codec Json (TaskListResponse T) :=
  TaskListResponse.codec (isoTime Json form) (Codec.text_nonNull Json form)

/-! ## Telling success from failure -/

/-- An error body has one key, `error`, and needs it; so a struct that needs another and
does not have this one is told from it. -/
theorem apart_error {S : Type} (t : StructTable Json S) {k : String} (needed : k ∈ t.fields.needed)
    (other : k ≠ "error") (foreign : "error" ∉ t.fields.names) :
    (t.codec false).Apart (ErrorBody.codec Json) := by
  have neededHere : "error" ∈ (ErrorBody.table Json).fields.needed := .head _
  have foreignHere : k ∉ (ErrorBody.table Json).fields.names := by
    simpa [ErrorBody.table] using other
  exact t.codec_apart (ErrorBody.table Json) false false neededHere foreign needed foreignHere

theorem createdTask_apart : (CreatedTask.codec Json).Apart (ErrorBody.codec Json) :=
  apart_error (CreatedTask.table Json) (k := "id") (.head _) (by decide)
    (by simp [CreatedTask.table])

theorem taskView_apart : (taskViewJson form).Apart (ErrorBody.codec Json) :=
  apart_error (TaskView.table _ _) (k := "task") (.head _) (by decide) (by simp [TaskView.table])

theorem taskListResponse_apart : (taskListResponseJson form).Apart (ErrorBody.codec Json) :=
  apart_error (TaskListResponse.table _ _) (k := "tasks") (.head _) (by decide)
    (by simp [TaskListResponse.table])

theorem deletedTask_apart : (DeletedTask.codec Json).Apart (ErrorBody.codec Json) :=
  apart_error (DeletedTask.table Json) (k := "id") (.head _) (by decide)
    (by simp [DeletedTask.table])

theorem healthResponse_apart : (HealthResponse.codec Json).Apart (ErrorBody.codec Json) :=
  apart_error (HealthResponse.table Json) (k := "server") (.head _) (by decide)
    (by simp [HealthResponse.table])

/-- What the reader of a health body computes from it is what its writer reports. -/
theorem allOk_read (v : HealthResponse) :
    HealthResponse.allOk <$> (HealthResponse.codec Json).decode ((HealthResponse.codec Json).encode v)
      = .ok (v.server.ok && v.postgres.ok && v.mongo.ok) := by
  rw [Codec.decode_encode]
  rfl

/-- **The wire format loses nothing, and success is never mistaken for failure.** -/
theorem wire_format :
    (∀ v, (CreateTaskRequest.codec Json).decode ((CreateTaskRequest.codec Json).encode v) =
        .ok v) ∧
      (∀ v, (CreatedTask.codec Json).decode ((CreatedTask.codec Json).encode v) = .ok v) ∧
      (∀ v, (taskViewJson form).decode ((taskViewJson form).encode v) = .ok v) ∧
      (∀ v, (taskListResponseJson form).decode ((taskListResponseJson form).encode v) = .ok v) ∧
      (∀ v, (DeletedTask.codec Json).decode ((DeletedTask.codec Json).encode v) = .ok v) ∧
      (∀ v, (HealthResponse.codec Json).decode ((HealthResponse.codec Json).encode v) = .ok v) ∧
      (∀ v, HealthResponse.allOk <$>
          (HealthResponse.codec Json).decode ((HealthResponse.codec Json).encode v) =
        .ok (v.server.ok && v.postgres.ok && v.mongo.ok)) ∧
      (∀ v, (ErrorBody.codec Json).decode ((ErrorBody.codec Json).encode v) = .ok v) ∧
      (CreatedTask.codec Json).Apart (ErrorBody.codec Json) ∧
      (taskViewJson form).Apart (ErrorBody.codec Json) ∧
      (taskListResponseJson form).Apart (ErrorBody.codec Json) ∧
      (DeletedTask.codec Json).Apart (ErrorBody.codec Json) ∧
      (HealthResponse.codec Json).Apart (ErrorBody.codec Json) :=
  ⟨Codec.decode_encode _, Codec.decode_encode _, Codec.decode_encode _, Codec.decode_encode _,
    Codec.decode_encode _, Codec.decode_encode _, allOk_read, Codec.decode_encode _,
    createdTask_apart, taskView_apart form, taskListResponse_apart form, deletedTask_apart,
    healthResponse_apart⟩

end Bodies

end CrewList.Core
