/-
# CrewList.Core.Additions -- what a client reads of a newer server

The two binaries ship together, but a client may meet a server that writes more than it
knows of.  Only the queries deny unknown fields; of everything a response can carry, what
is written under other names than those of the wire types (`wireNames`) is skipped,
wherever it stands, and the order of members does not matter.
-/
import CrewList.Core.Wire
import CrewList.Theory.Additions

namespace CrewList.Core

open CrewList.Theory.Serde

set_option autoImplicit false

/-- The names of the fields a response is made of. -/
def wireNames : List String :=
  ["id", "title", "status", "origin", "parent_id", "agent_eligible", "summary", "created_at",
    "updated_at", "handed_off_at", "completed_at", "task_id", "schema_version", "description",
    "notes", "sources", "contacts", "author", "body", "at", "url", "retrieved_at", "name",
    "phone", "email", "task", "detail", "children", "tasks", "cascaded", "ok", "version",
    "message", "server", "postgres", "mongo", "error", "code"]

variable {T : Type}

theorem optionalText_tolerant :
    ((Codec.str Json).option (Codec.str_nonNull Json)).Tolerant wireNames :=
  Codec.option_tolerant _ Codec.str_tolerant

/-! ## Tasks and their details -/

theorem taskStatus_tolerant : (TaskStatus.codec Json).Tolerant wireNames :=
  Codec.unitEnum_tolerant TaskStatus.asStr_injective TaskStatus.mem_variants

theorem taskOrigin_tolerant : (TaskOrigin.codec Json).Tolerant wireNames :=
  Codec.unitEnum_tolerant TaskOrigin.asStr_injective TaskOrigin.mem_variants

theorem task_tolerant {time : Codec Json T} (nonNull : time.NonNull)
    (times : time.Tolerant wireNames) : (Task.codec time nonNull).Tolerant wireNames := by
  have parent : ((Codec.i64 Json).option (Codec.i64_nonNull Json)).Tolerant wireNames :=
    Codec.option_tolerant _ Codec.i64_tolerant
  have optionalTime : (time.option nonNull).Tolerant wireNames :=
    Codec.option_tolerant nonNull times
  apply StructTable.tolerant
  · simp [Task.table, wireNames]
  · exact .cons Codec.i64_tolerant <| .cons Codec.str_tolerant <| .cons taskStatus_tolerant <|
      .cons taskOrigin_tolerant <| .cons parent <| .cons Codec.bool_tolerant <|
      .cons optionalText_tolerant <| .cons times <| .cons times <| .cons optionalTime <|
      .cons optionalTime .nil

theorem note_tolerant {time : Codec Json T} (times : time.Tolerant wireNames) :
    (Note.codec time).Tolerant wireNames := by
  apply StructTable.tolerant
  · simp [Note.table, wireNames]
  · exact .cons Codec.str_tolerant <| .cons Codec.str_tolerant <| .cons times .nil

theorem source_tolerant {time : Codec Json T} (times : time.Tolerant wireNames) :
    (Source.codec time).Tolerant wireNames := by
  apply StructTable.tolerant
  · simp [Source.table, wireNames]
  · exact .cons Codec.str_tolerant <| .cons optionalText_tolerant <| .cons times .nil

theorem contact_tolerant : (Contact.codec Json).Tolerant wireNames := by
  apply StructTable.tolerant
  · simp [Contact.table, wireNames]
  · exact .cons Codec.str_tolerant <| .cons optionalText_tolerant <|
      .cons optionalText_tolerant <| .cons optionalText_tolerant .nil

theorem taskDetail_tolerant {time : Codec Json T} (times : time.Tolerant wireNames) :
    (TaskDetail.codec time).Tolerant wireNames := by
  apply StructTable.tolerant
  · simp [TaskDetail.table, wireNames]
  · exact .cons Codec.i64_tolerant <| .cons Codec.i32_tolerant <| .cons Codec.str_tolerant <|
      .cons (Codec.list_tolerant (note_tolerant times)) <|
      .cons (Codec.list_tolerant (source_tolerant times)) <|
      .cons (Codec.list_tolerant contact_tolerant) <| .cons optionalText_tolerant <|
      .cons times <| .cons times .nil

/-! ## Bodies -/

theorem createdTask_tolerant : (CreatedTask.codec Json).Tolerant wireNames := by
  apply StructTable.tolerant
  · simp [CreatedTask.table, wireNames]
  · exact .cons Codec.i64_tolerant .nil

theorem deletedTask_tolerant : (DeletedTask.codec Json).Tolerant wireNames := by
  apply StructTable.tolerant
  · simp [DeletedTask.table, wireNames]
  · exact .cons Codec.i64_tolerant <| .cons (Codec.list_tolerant Codec.i64_tolerant) .nil

theorem taskView_tolerant (form : TextForm T) : (taskViewJson form).Tolerant wireNames := by
  have task : (Task.codec (isoTime Json form) (Codec.text_nonNull Json form)).Tolerant wireNames :=
    task_tolerant _ (Codec.text_tolerant form)
  apply StructTable.tolerant
  · simp [TaskView.table, wireNames]
  · exact .cons task <| .cons (taskDetail_tolerant (Codec.text_tolerant form)) <|
      .cons (Codec.list_tolerant task) .nil

theorem taskListResponse_tolerant (form : TextForm T) :
    (taskListResponseJson form).Tolerant wireNames := by
  apply StructTable.tolerant
  · simp [TaskListResponse.table, wireNames]
  · exact .cons (Codec.list_tolerant (task_tolerant _ (Codec.text_tolerant form))) .nil

theorem componentHealth_tolerant : (ComponentHealth.codec Json).Tolerant wireNames := by
  apply StructTable.tolerant
  · simp [ComponentHealth.table, wireNames]
  · exact .cons Codec.bool_tolerant <| .cons optionalText_tolerant <|
      .cons optionalText_tolerant .nil

theorem healthResponse_tolerant : (HealthResponse.codec Json).Tolerant wireNames := by
  apply StructTable.tolerant
  · simp [HealthResponse.table, wireNames]
  · exact .cons componentHealth_tolerant <| .cons componentHealth_tolerant <|
      .cons componentHealth_tolerant .nil

theorem errorBody_tolerant : (ErrorBody.codec Json).Tolerant wireNames := by
  have code : (ErrorCode.codec Json).Tolerant wireNames :=
    Codec.unitEnum_tolerant ErrorCode.asStr_injective ErrorCode.mem_variants
  have detail : (ErrorDetail.codec Json).Tolerant wireNames := by
    apply StructTable.tolerant
    · simp [ErrorDetail.table, wireNames]
    · exact .cons code <| .cons Codec.str_tolerant .nil
  apply StructTable.tolerant
  · simp [ErrorBody.table, wireNames]
  · exact .cons detail .nil

end CrewList.Core
