/-
# CrewList.Server.Http -- requests, responses and the three extractors

`error.rs` and `extract.rs`.  What the program takes from axum, hyper and
`serde_json` is a parameter, `Axum`: how a path segment and a query are decoded,
which content types count as JSON, how a body is parsed, and the text of a
rejection.  Which of these is consulted when, and what becomes of a failure, is the
extractors' and is modelled.
-/
import CrewList.Core.Wire

namespace CrewList.Server

open CrewList.Core
open CrewList.Theory.Serde

set_option autoImplicit false

/-! ## Requests and responses -/

inductive Method where
  | get | head | post | put | delete | options | patch | trace | connect
  | extension (name : String)
  deriving DecidableEq, Repr

/-- A request as the router sees it.  `body` is `none` if the stream breaks off. -/
structure Request where
  method : Method
  path : String
  query : Option String
  headers : List (String × String)
  body : Option (List UInt8)

/-- Status and body; an empty body is `none`. -/
structure Response where
  status : Nat
  body : Option Json

def Response.isSuccess (r : Response) : Prop := 200 ≤ r.status ∧ r.status < 300

instance (r : Response) : Decidable r.isSuccess := inferInstanceAs (Decidable (_ ∧ _))

/-! ## Errors as responses -/

def statusFor : ErrorCode → Nat
  | .validation => 400
  | .notFound => 404
  | .illegalTransition => 409
  | .storage => 503
  | .unimplemented => 501
  | .internal | .unreachable => 500

theorem statusFor_not_success (code : ErrorCode) : 400 ≤ statusFor code := by
  cases code <;> decide

/-- `ApiError::into_response` -/
def apiError (e : CrewError) : Response where
  status := statusFor e.code
  body := some ((ErrorBody.codec Json).encode (.ofCrewError e))

/-- The response is the error object of `e`, under the status of its code. -/
def IsErrorOf (e : CrewError) (r : Response) : Prop :=
  ∃ v body, r.body = some v ∧ (ErrorBody.codec Json).decode v = .ok body ∧
    body.error.code = e.code ∧ body.error.message = e.toString ∧
    r.status = statusFor body.error.code

theorem apiError_not_success (e : CrewError) : ¬ (apiError e).isSuccess := by
  rintro ⟨-, below⟩
  have above : 400 ≤ (apiError e).status := statusFor_not_success e.code
  omega

theorem apiError_isErrorOf (e : CrewError) : IsErrorOf e (apiError e) :=
  ⟨_, _, rfl, Codec.decode_encode _ _, rfl, rfl, rfl⟩

/-! ## Rejections -/

/-- Why an axum extractor refuses a request. -/
inductive Rejection where
  | missingJsonContentType
  | bodyLimitExceeded
  | bodyUnreadable
  | jsonSyntaxError
  | jsonDataError (e : DecodeError)
  | invalidUtf8InPathParam
  | pathParseError (value : String)
  | queryDataError (e : DecodeError)

/-- What the program takes from its HTTP stack. -/
structure Axum where
  isJsonContent : List (String × String) → Bool
  parseJson : List UInt8 → Option Json
  percentDecode : String → Option String
  formPairs : String → List (String × String)
  bodyText : Request → Rejection → String

/-- The default limit on a request body, 2 MB. -/
def bodyLimit : Nat := 2097152

namespace Axum

variable (axum : Axum) {α : Type}

/-- `axum::Json` -/
def json (decode : Json → Decoded α) (req : Request) : Except Rejection α :=
  if axum.isJsonContent req.headers then
    match req.body with
    | none => .error .bodyUnreadable
    | some bytes =>
        if bytes.length ≤ bodyLimit then
          match axum.parseJson bytes with
          | none => .error .jsonSyntaxError
          | some v => (decode v).mapError .jsonDataError
        else .error .bodyLimitExceeded
  else .error .missingJsonContentType

/-- `axum::extract::Path` for the one captured segment. -/
def pathId (segment : String) : Except Rejection TaskId :=
  match axum.percentDecode segment with
  | none => .error .invalidUtf8InPathParam
  | some value =>
      match parseI64 value with
      | some id => .ok id
      | none => .error (.pathParseError value)

/-- The key and value pairs of the query; no query is the empty one. -/
def pairs (req : Request) : List (String × String) := axum.formPairs (req.query.getD "")

/-- `axum::extract::Query` -/
def query (decode : Query → Decoded α) (req : Request) : Except Rejection α :=
  (decode (.pairs (axum.pairs req))).mapError .queryDataError

/-! ## The extractors that fail in the project's error shape -/

/-- A rejection becomes a validation error with the rejection's text. -/
def validated (req : Request) (extracted : Except Rejection α) : Except CrewError α :=
  extracted.mapError fun rejection => .validation (axum.bodyText req rejection)

def appJson (decode : Json → Decoded α) (req : Request) : Except CrewError α :=
  axum.validated req (axum.json decode req)

def appPath (segment : String) (req : Request) : Except CrewError TaskId :=
  axum.validated req (axum.pathId segment)

def appQuery (decode : Query → Decoded α) (req : Request) : Except CrewError α :=
  axum.validated req (axum.query decode req)

variable {axum}

/-- An extractor fails with a validation error and nothing else. -/
theorem validated_error {req : Request} {extracted : Except Rejection α} {e : CrewError}
    (failed : axum.validated req extracted = .error e) : e.code = .validation := by
  cases extracted with
  | ok a => cases failed
  | error rejection =>
      cases failed
      rfl

theorem validated_ok {req : Request} {extracted : Except Rejection α} {a : α} :
    axum.validated req extracted = .ok a ↔ extracted = .ok a := by
  cases extracted <;> simp [validated, Except.mapError]

theorem appJson_ok {decode : Json → Decoded α} {req : Request} {a : α} :
    axum.appJson decode req = .ok a ↔
      axum.isJsonContent req.headers = true ∧ ∃ bytes v, req.body = some bytes ∧
        bytes.length ≤ bodyLimit ∧ axum.parseJson bytes = some v ∧ decode v = .ok a := by
  rw [appJson, validated_ok, json]
  constructor
  · intro extracted
    split at extracted
    · rename_i content
      split at extracted
      · cases extracted
      · rename_i bytes body
        split at extracted
        · rename_i fits
          split at extracted
          · cases extracted
          · rename_i v parsed
            refine ⟨content, bytes, v, body, fits, parsed, ?_⟩
            cases decoded : decode v <;> simp_all [Except.mapError]
        · cases extracted
    · cases extracted
  · rintro ⟨content, bytes, v, body, fits, parsed, decoded⟩
    simp [content, body, fits, parsed, decoded, Except.mapError]

theorem appPath_ok {segment : String} {req : Request} {id : TaskId} :
    axum.appPath segment req = .ok id ↔
      ∃ value, axum.percentDecode segment = some value ∧ parseI64 value = some id := by
  rw [appPath, validated_ok, pathId]
  cases axum.percentDecode segment with
  | none => simp
  | some value => cases parsed : parseI64 value <;> simp [parsed]

theorem appQuery_ok {decode : Query → Decoded α} {req : Request} {a : α} :
    axum.appQuery decode req = .ok a ↔ decode (.pairs (axum.pairs req)) = .ok a := by
  rw [appQuery, validated_ok, query]
  cases decode (.pairs (axum.pairs req)) <;> simp [Except.mapError]

end Axum

/-! ## An HTTP stack on given texts -/

/-- The text in UTF-8. -/
def utf8 (text : String) : List UInt8 := text.toList.flatMap String.utf8EncodeChar

/-- The stack on these query texts, listed with their pairs, on these JSON texts, listed with
what they are parsed as, and on paths without escapes. -/
def tabledAxum (queries : List (String × List (String × String))) (bodies : List (String × Json)) :
    Axum where
  isJsonContent headers := ("content-type", "application/json") ∈ headers
  parseJson bytes := (bodies.find? fun body => utf8 body.1 = bytes).map Prod.snd
  percentDecode segment := if '%' ∈ segment.toList then none else some segment
  formPairs query := (queries.lookup query).getD []
  bodyText _ _ := "Invalid request"

end CrewList.Server
