/-
# CrewList.Core.Error -- errors and their stable wire codes

`crewlist-core`'s `error.rs`, and the store's error that converts into it.
-/
import CrewList.Core.Task

namespace CrewList.Core

open CrewList.Theory.Serde

set_option autoImplicit false

inductive ErrorCode where
  | notFound | illegalTransition | validation | storage | unreachable | internal
  | unimplemented
  deriving DecidableEq, Repr

namespace ErrorCode

def asStr : ErrorCode → String
  | .notFound => "not_found"
  | .illegalTransition => "illegal_transition"
  | .validation => "validation"
  | .storage => "storage"
  | .unreachable => "unreachable"
  | .internal => "internal"
  | .unimplemented => "unimplemented"

/-- Exit codes are the agent-facing contract. -/
def exitCode : ErrorCode → Nat
  | .notFound => 3
  | .illegalTransition => 4
  | .storage | .unreachable => 5
  | .validation => 6
  | .internal | .unimplemented => 1

def variants : List ErrorCode :=
  [.notFound, .illegalTransition, .validation, .storage, .unreachable, .internal,
    .unimplemented]

theorem asStr_injective : Function.Injective asStr := by
  intro a b same
  cases a <;> cases b <;> first | rfl | exact absurd same (by decide)

theorem mem_variants (c : ErrorCode) : c ∈ variants := by cases c <;> decide

end ErrorCode

inductive CrewError where
  | notFound (id : TaskId)
  | illegalTransition (id : TaskId) (from_ to_ : TaskStatus) (action : String)
  | validation (message : String)
  | storage (message : String)
  | internal (message : String)
  | unimplemented (what : String)
  deriving DecidableEq

namespace CrewError

/-- The `#[error(...)]` texts. -/
def toString : CrewError → String
  | .notFound id => "task " ++ ToString.toString id ++ " not found"
  | .illegalTransition id from_ to_ action =>
      "task " ++ ToString.toString id ++ " is '" ++ from_.asStr ++ "'; cannot " ++ action ++
        " (would be '" ++ to_.asStr ++ "')"
  | .validation message => message
  | .storage message => "storage unavailable: " ++ message
  | .internal message => message
  | .unimplemented what => what ++ " is not implemented yet"

def code : CrewError → ErrorCode
  | .notFound _ => .notFound
  | .illegalTransition .. => .illegalTransition
  | .validation _ => .validation
  | .storage _ => .storage
  | .internal _ => .internal
  | .unimplemented _ => .unimplemented

def exitCode (e : CrewError) : Nat := e.code.exitCode

/-- `Unreachable` is a client-side condition: no server error carries it. -/
theorem code_ne_unreachable (e : CrewError) : e.code ≠ .unreachable := by
  cases e <;> simp [code]

end CrewError

/-! ## The store's errors -/

/-- `StoreError`; a source is carried as its text. -/
inductive StoreError where
  | connect (store source : String)
  | init (store source : String)
  | migrate (source : String)
  | query (store source : String)
  deriving DecidableEq

namespace StoreError

def toString : StoreError → String
  | .connect store source => "cannot connect to " ++ store ++ ": " ++ source
  | .init store source => "cannot initialize " ++ store ++ ": " ++ source
  | .migrate source => "migration failed: " ++ source
  | .query store source => store ++ " query failed: " ++ source

/-- `impl From<StoreError> for CrewError`: everything here is a backend problem. -/
def toCrewError (e : StoreError) : CrewError := .storage e.toString

end StoreError

/-! ## The body every error path emits -/

structure ErrorDetail where
  code : ErrorCode
  message : String
  deriving DecidableEq

structure ErrorBody where
  error : ErrorDetail
  deriving DecidableEq

def ErrorBody.new (code : ErrorCode) (message : String) : ErrorBody where
  error := { code, message }

/-- `impl From<&CrewError> for ErrorBody`. -/
def ErrorBody.ofCrewError (e : CrewError) : ErrorBody := .new e.code e.toString

section Codecs

variable (V : Type) [Deserializer V] [Serializer V] [LawfulFormat V] [EnumAccess V] [LawfulEnum V]

omit [Deserializer V] [LawfulFormat V] in
/-- The `snake_case` names serde derives are those of `as_str`. -/
def ErrorCode.codec : Codec V ErrorCode :=
  .unitEnum V ErrorCode.asStr ErrorCode.variants ErrorCode.asStr_injective
    ErrorCode.mem_variants

def ErrorDetail.table : StructTable V ErrorDetail where
  fields :=
    .cons (.required "code" (ErrorCode.codec V)) <|
    .cons (.required "message" (.str V)) .nil
  toRow d := (d.code, d.message, ())
  ofRow := fun (code, message, _) => { code, message }
  ofRow_toRow _ := rfl
  toRow_ofRow _ := rfl
  distinct := by simp

def ErrorDetail.codec : Codec V ErrorDetail := (ErrorDetail.table V).codec false

def ErrorBody.table : StructTable V ErrorBody where
  fields := .cons (.required "error" (ErrorDetail.codec V)) .nil
  toRow b := (b.error, ())
  ofRow := fun (error, _) => { error }
  ofRow_toRow _ := rfl
  toRow_ofRow _ := rfl
  distinct := by simp

def ErrorBody.codec : Codec V ErrorBody := (ErrorBody.table V).codec false

end Codecs

end CrewList.Core
