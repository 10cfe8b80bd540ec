/-
# CrewList.Server.Delivery -- from the repo's reply to the client's value

A request costs the repo at most one operation, and what the client decodes from the
response is that operation's reply: the value itself under the status of the route,
or the error object of the error.  `reply_delivered` composes the handlers with the
wire format, for any repo.

This build serves `StoreRepo`, whose task operations are not implemented:
`health_exact` follows a ping from the stores to the client, and
`only_health_succeeds` is that no other request is answered with a success.
-/
import CrewList.Server.Router

namespace CrewList.Server

open CrewList.Core
open CrewList.Theory.Serde

set_option autoImplicit false

variable {σ T β : Type}

/-! ## What a response carries -/

/-- The client decodes the reply from the response. -/
def Carries (status : Nat) (codec : Codec Json β) : Except CrewError β → Response → Prop
  | .ok b, r => r.status = status ∧ ∃ v, r.body = some v ∧ codec.decode v = .ok b
  | .error e, r => IsErrorOf e r

theorem respond_carries (status : Nat) (codec : Codec Json β) (reply : Except CrewError β) :
    Carries status codec reply (respond status codec.encode reply) := by
  cases reply with
  | ok b => exact ⟨rfl, _, rfl, codec.decode_encode b⟩
  | error e => exact apiError_isErrorOf e

/-- The response delivers the reply of the exchange, as its route does. -/
def Delivers (form : TextForm T) : Exchange T → Response → Prop
  | .create _ reply => Carries 201 (CreatedTask.codec Json) reply
  | .get _ reply => Carries 200 (taskViewJson form) reply
  | .list _ reply => Carries 200 (taskListResponseJson form) reply
  | .delete _ _ reply => Carries 200 (DeletedTask.codec Json) reply
  | .health report => Carries 200 (HealthResponse.codec Json) (.ok report)

/-- Nothing was called; or one operation was, and its reply delivered. -/
def DeliversOnce (form : TextForm T) (result : Response × σ × List (Exchange T)) : Prop :=
  result.2.2 = [] ∨ ∃ exchange, result.2.2 = [exchange] ∧ Delivers form exchange result.1

section Requests

variable {axum : Axum} {form : TextForm T} {repo : TaskRepo σ T}

theorem handle_delivers {α : Type} {status : Nat} {codec : Codec Json β}
    {extracted : Except CrewError α} {operation : α → StateM σ (Except CrewError β)}
    (exchange : α → Except CrewError β → Exchange T)
    (carried : ∀ a reply r, Carries status codec reply r → Delivers form (exchange a reply) r)
    (s : σ) :
    DeliversOnce form ((handle status codec.encode extracted
      fun a => record (exchange a) (operation a)).run (s, [])) := by
  rcases handle_recorded exchange s with ⟨e, -, run⟩ | ⟨a, -, run⟩
  · rw [run]
    exact .inl rfl
  · rw [run]
    exact .inr ⟨_, rfl, carried a _ _ (respond_carries status codec _)⟩

/-- **One request, one operation at most, and its reply.**  For every request but
HEAD and every repo. -/
theorem reply_delivered (axum : Axum) (form : TextForm T) (repo : TaskRepo σ T) (req : Request)
    (s : σ) (notHead : req.method ≠ .head) :
    DeliversOnce form (observe axum form repo req s) := by
  by_cases routed : Routed req
  · apply observe_cases (P := DeliversOnce form) routed s
    · exact fun _ => .inr ⟨_, rfl, rfl, _, rfl, Codec.decode_encode _ _⟩
    · exact fun _ => handle_delivers Exchange.create (fun _ _ _ carried => carried) s
    · exact fun _ => handle_delivers Exchange.list (fun _ _ _ carried => carried) s
    · exact fun _ _ => handle_delivers Exchange.get (fun _ _ _ carried => carried) s
    · exact fun _ _ => handle_delivers (fun a : TaskId × Bool => Exchange.delete a.1 a.2)
        (fun _ _ _ carried => carried) s
  · obtain ⟨status, -, run⟩ :=
      @unrouted_empty _ T axum form repo.recorded req routed notHead (s, [])
    rw [observe, run]
    exact .inl rfl

end Requests

/-! ## The production repo -/

section Production

variable (axum : Axum) (form : TextForm T) (version : String) (stores : Stores)

/-- **From the pings to the client.**  `GET /health` is answered 200 with a report
the client decodes, which is all right exactly when both stores answered, and which
it cannot take for an error. -/
theorem health_exact {req : Request} (method : req.method = .get) (path : req.path = "/health") :
    ∃ v report, (serve axum form (storeRepo T version) req).run stores =
        ({ status := 200, body := some v }, stores) ∧
      (HealthResponse.codec Json).decode v = .ok report ∧
      (report.allOk = true ↔ stores.postgres = .ok () ∧ stores.mongo = .ok ()) ∧
      ∀ e, (ErrorBody.codec Json).decode v ≠ .ok e := by
  have served := observe_transparent axum form (storeRepo T version) req stores
  rw [observe_health method path] at served
  refine ⟨_, _, served.symm, Codec.decode_encode _ _, (healthReport_exact version stores.postgres stores.mongo).1, ?_⟩
  exact healthResponse_apart.1 _

/-- A handler whose operation only ever fails does not succeed. -/
theorem handle_fails {α : Type} {status : Nat} {encode : β → Json}
    {extracted : Except CrewError α} {operation : α → StateM σ (Except CrewError β)}
    (fails : ∀ a s, ∃ e, ((operation a).run s).1 = .error e) (s : σ) :
    ¬ ((handle status encode extracted operation).run s).1.isSuccess := by
  cases extracted with
  | error e => exact apiError_not_success e
  | ok a =>
      obtain ⟨e, failed⟩ := fails a s
      show ¬ (respond status encode ((operation a).run s).1).isSuccess
      rw [failed]
      exact apiError_not_success e

/-- The table lists only GET for `/health`. -/
theorem Routed.get_of_health {req : Request} (routed : Routed req) (path : req.path = "/health") :
    req.method = .get := by
  rcases routed with ⟨-, method⟩ | ⟨other, -⟩ | ⟨segment, other, nonempty, single, -⟩
  · exact method
  · rw [path] at other
    exact absurd other (by decide)
  · have isHealth := matchRoute_eq_health.mpr path
    rw [matchRoute_eq_task.mpr ⟨other, nonempty, single⟩] at isHealth
    cases isHealth

theorem observe_tasks_fails {req : Request} (routed : Routed req) (other : req.path ≠ "/health") :
    ¬ (observe axum form (storeRepo T version) req stores).1.isSuccess := by
  apply observe_cases (P := fun result => ¬ result.1.isSuccess) routed stores
  · exact fun path => absurd path other
  · exact fun _ => handle_fails (fun _ _ => ⟨_, rfl⟩) _
  · exact fun _ => handle_fails (fun _ _ => ⟨_, rfl⟩) _
  · exact fun _ _ => handle_fails (fun _ _ => ⟨_, rfl⟩) _
  · exact fun _ _ => handle_fails (fun _ _ => ⟨_, rfl⟩) _

/-- **All this build does is report its health.**  A request but HEAD is answered with
a success exactly when it is `GET /health`. -/
theorem only_health_succeeds (req : Request) (notHead : req.method ≠ .head) :
    ((serve axum form (storeRepo T version) req).run stores).1.isSuccess ↔
      req.path = "/health" ∧ req.method = .get := by
  constructor
  · intro success
    by_cases routed : Routed req
    · by_cases path : req.path = "/health"
      · exact ⟨path, routed.get_of_health path⟩
      · rw [← observe_transparent] at success
        exact absurd success (observe_tasks_fails axum form version stores routed path)
    · obtain ⟨status, fallback, run⟩ :=
        @unrouted_empty _ T axum form (storeRepo T version) req routed notHead stores
      rw [run] at success
      obtain ⟨-, below⟩ := success
      simp only at below
      omega
  · rintro ⟨path, method⟩
    obtain ⟨v, report, served, -⟩ := health_exact axum form version stores method path
    rw [served]
    exact ⟨Nat.le_refl _, show 200 < 300 by omega⟩

end Production

end CrewList.Server
