/-
# CrewList.Server.Queries -- a query is understood exactly or refused

`GET /tasks` and `DELETE /tasks/{id}` at the level of the router.  `Understands` and
`UnderstandsForce` say which pairs a query may consist of and what it then means,
without mention of the decoder; `list_exact` and `delete_exact` are that the repo is
called with that meaning, once, or the request is refused and the repo not called.
-/
import CrewList.Server.Router

namespace CrewList.Server

open CrewList.Core
open CrewList.Theory.Serde

set_option autoImplicit false

/-! ## What a query means -/

/-- The value under a key, as `spells` reads it, or the default of a key that is not
there. -/
def Stated {α : Type} (pairs : List (String × String)) (key : String) (spells : α → String → Prop)
    (default a : α) : Prop :=
  (∀ v, (key, v) ∈ pairs → spells a v) ∧ (key ∉ pairs.map Prod.fst → a = default)

/-- `true` or `false`. -/
def SpellsBool (b : Bool) (v : String) : Prop := v = if b then "true" else "false"

/-- Every key is known and none occurs twice; the values are those of `q`. -/
structure Understands (pairs : List (String × String)) (q : ListQuery) : Prop where
  known : ∀ p ∈ pairs, p.1 = "queue" ∨ p.1 = "status" ∨ p.1 = "all"
  once : (pairs.map Prod.fst).Nodup
  queue : Stated pairs "queue" (fun a v => ∃ x, a = some x ∧ v = x.name) none q.queue
  status : Stated pairs "status" (fun a v => ∃ x, a = some x ∧ v = x.asStr) none q.status
  all : Stated pairs "all" SpellsBool false q.all

/-- The query is empty, or the single pair `force=true` or `force=false`. -/
def UnderstandsForce (pairs : List (String × String)) (force : Bool) : Prop :=
  (pairs = [] ∧ force = false) ∨ ∃ v, pairs = [("force", v)] ∧ SpellsBool force v

theorem Stated.perm {α : Type} {pairs pairs' : List (String × String)} {key : String}
    {spells : α → String → Prop} {default a : α} (stated : Stated pairs key spells default a)
    (perm : pairs.Perm pairs') : Stated pairs' key spells default a := by
  obtain ⟨present, absent⟩ := stated
  refine ⟨fun v member => present v (perm.mem_iff.mpr member), fun missing => absent ?_⟩
  exact fun member => missing ((perm.map Prod.fst).mem_iff.mp member)

theorem Understands.perm {pairs pairs' : List (String × String)} {q : ListQuery}
    (understood : Understands pairs q) (perm : pairs.Perm pairs') : Understands pairs' q where
  known p member := understood.known p (perm.mem_iff.mpr member)
  once := (perm.map Prod.fst).nodup_iff.mp understood.once
  queue := understood.queue.perm perm
  status := understood.status.perm perm
  all := understood.all.perm perm

/-! ## What the derives read -/

theorem given_optional {α : Type} {name : String} {c : Codec Query α}
    {pairs : List (String × String)} {a : Option α} {text : α → String}
    (reads : ∀ {s x}, c.decode (.part s) = .ok x ↔ s = text x) :
    Query.Given (Query.optional name c) pairs a ↔
      Stated pairs name (fun a v => ∃ x, a = some x ∧ v = text x) none a := by
  refine and_congr (forall₂_congr fun v _ => ?_) (imp_congr_right fun _ => ?_)
  · rw [Query.optional, map_eq_ok]
    constructor
    · rintro ⟨x, named, rfl⟩
      exact ⟨x, rfl, reads.mp named⟩
    · rintro ⟨x, rfl, named⟩
      exact ⟨x, reads.mpr named, rfl⟩
  · exact Option.some_inj.trans eq_comm

theorem given_bool {name : String} {pairs : List (String × String)} {b : Bool} :
    Query.Given (.defaulted name Query.bool false) pairs b ↔
      Stated pairs name SpellsBool false b := by
  refine and_congr (forall₂_congr fun v _ => ?_) (imp_congr_right fun _ => ?_)
  · exact Query.decode_bool_eq_ok
  · exact Option.some_inj.trans eq_comm

/-- **`ListQuery`.** -/
theorem listQuery_decode {pairs : List (String × String)} {q : ListQuery} :
    ListQuery.decode (.pairs pairs) = .ok q ↔ Understands pairs q := by
  rw [ListQuery.decode, Query.decode_pairs_eq_ok]
  constructor
  · rintro ⟨known, once, queue, status, all, -⟩
    refine ⟨?_, once, (given_optional Query.decode_unitEnum_eq_ok).mp queue,
      (given_optional Query.decode_unitEnum_eq_ok).mp status, given_bool.mp all⟩
    simpa [ListQuery.table] using known
  · rintro ⟨known, once, queue, status, all⟩
    refine ⟨?_, once, (given_optional Query.decode_unitEnum_eq_ok).mpr queue,
      (given_optional Query.decode_unitEnum_eq_ok).mpr status, given_bool.mpr all, trivial⟩
    simpa [ListQuery.table] using known

/-- **`DeleteQuery`.** -/
theorem deleteQuery_decode {pairs : List (String × String)} {q : DeleteQuery} :
    DeleteQuery.decode (.pairs pairs) = .ok q ↔ UnderstandsForce pairs q.force := by
  rw [DeleteQuery.decode, Query.decode_pairs_eq_ok]
  have names : DeleteQuery.table.fields.names = ["force"] := rfl
  constructor
  · rintro ⟨known, once, force, -⟩
    obtain ⟨present, absent⟩ := given_bool.mp force
    simp only [names, List.mem_singleton] at known
    match pairs, known, once, present, absent with
    | [], _, _, _, absent => exact .inl ⟨rfl, absent (by simp)⟩
    | [(k, v)], known, _, present, _ =>
        obtain rfl : k = "force" := known _ (.head _)
        exact .inr ⟨v, rfl, present v (.head _)⟩
    | (k, v) :: (j, w) :: rest, known, once, _, _ =>
        obtain rfl : k = "force" := known _ (.head _)
        obtain rfl : j = "force" := known _ (.tail _ (.head _))
        simp at once
  · rintro (⟨rfl, off⟩ | ⟨v, rfl, spells⟩)
    · exact ⟨by simp, .nil, given_bool.mpr ⟨by simp, fun _ => off⟩, trivial⟩
    · refine ⟨by simp [names], by simp, given_bool.mpr ⟨?_, by simp⟩, trivial⟩
      intro w member
      simp only [List.mem_singleton, Prod.mk.injEq, true_and] at member
      rwa [member]

/-! ## What the router does with it -/

section Requests

variable {σ T : Type} (axum : Axum) (form : TextForm T) (repo : TaskRepo σ T)

/-- The path segment is the text of an id. -/
def NamesId (segment : String) (id : TaskId) : Prop :=
  ∃ value, axum.percentDecode segment = some value ∧ parseI64 value = some id

theorem deleteArguments_ok {segment : String} {req : Request} {id : TaskId} {force : Bool} :
    deleteArguments axum segment req = .ok (id, force) ↔
      NamesId axum segment id ∧ UnderstandsForce (axum.pairs req) force := by
  unfold deleteArguments
  rw [NamesId, ← @Axum.appPath_ok axum segment req id]
  cases path : axum.appPath segment req with
  | error e => simp [bind, Except.bind]
  | ok id' =>
      cases query : axum.appQuery DeleteQuery.decode req with
      | error e =>
          have never : ¬ UnderstandsForce (axum.pairs req) force := by
            intro understood
            have decoded : DeleteQuery.decode (.pairs (axum.pairs req)) = .ok ⟨force⟩ :=
              deleteQuery_decode.mpr understood
            rw [← Axum.appQuery_ok, query] at decoded
            cases decoded
          simp [bind, Except.bind, never]
      | ok q =>
          have understood := deleteQuery_decode.mp (Axum.appQuery_ok.mp query)
          simp only [bind, Except.bind, pure, Except.pure, Except.ok.injEq, Prod.mk.injEq]
          refine and_congr_right fun _ => ⟨fun same => same ▸ understood, fun other => ?_⟩
          have decoded : DeleteQuery.decode (.pairs (axum.pairs req)) = .ok ⟨force⟩ :=
            deleteQuery_decode.mpr other
          rw [← Axum.appQuery_ok, query] at decoded
          cases decoded
          rfl

variable {axum form repo}

theorem list_exact {req : Request} (method : req.method = .get) (path : req.path = "/tasks")
    (s : σ) :
    (∀ q, (∃ reply, (observe axum form repo req s).2.2 = [.list q reply]) ↔
        Understands (axum.pairs req) q) ∧
      ((∀ q, ¬ Understands (axum.pairs req) q) → Refused (observe axum form repo req s)) := by
  rw [observe_list method path]
  apply handle_exact Exchange.list
  · exact fun same => (Exchange.list.inj same).1
  · exact fun _ => Axum.validated_error
  · exact fun _ => Axum.appQuery_ok.trans listQuery_decode

theorem delete_exact {req : Request} {segment : String} (method : req.method = .delete)
    (path : matchRoute req.path = some (.task segment)) (s : σ) :
    (∀ id force, (∃ reply, (observe axum form repo req s).2.2 = [.delete id force reply]) ↔
        NamesId axum segment id ∧ UnderstandsForce (axum.pairs req) force) ∧
      ((∀ id force, ¬ (NamesId axum segment id ∧ UnderstandsForce (axum.pairs req) force)) →
        Refused (observe axum form repo req s)) := by
  rw [observe_delete method path]
  have uncurried : (∀ a : TaskId × Bool,
        (∃ reply, ((delete axum repo.recorded segment req).run (s, [])).2.2 =
          [.delete a.1 a.2 reply]) ↔
        NamesId axum segment a.1 ∧ UnderstandsForce (axum.pairs req) a.2) ∧
      ((∀ a : TaskId × Bool,
          ¬ (NamesId axum segment a.1 ∧ UnderstandsForce (axum.pairs req) a.2)) →
        Refused ((delete axum repo.recorded segment req).run (s, []))) := by
    apply handle_exact fun a : TaskId × Bool => Exchange.delete a.1 a.2
    · exact fun same => Prod.ext (Exchange.delete.inj same).1 (Exchange.delete.inj same).2.1
    · exact fun _ => deleteArguments_error
    · exact fun _ => deleteArguments_ok axum
  simpa only [Prod.forall] using uncurried

/-- **Queries are understood exactly or refused.**  `GET /tasks` calls `list` once, with
what the pairs mean, and in any order they mean the same; `DELETE /tasks/{id}` calls
`delete` once, with the id and the force the request names.  Everything else is
refused with a validation error, and no operation is called. -/
theorem queries_exact (axum : Axum) (form : TextForm T) (repo : TaskRepo σ T) (s : σ) :
    (∀ req : Request, req.method = .get → req.path = "/tasks" →
        (∀ q, (∃ reply, (observe axum form repo req s).2.2 = [.list q reply]) ↔
          Understands (axum.pairs req) q) ∧
        ((∀ q, ¬ Understands (axum.pairs req) q) → Refused (observe axum form repo req s)) ∧
        ∀ req' : Request, req'.method = .get → req'.path = "/tasks" →
          (axum.pairs req).Perm (axum.pairs req') →
            ∀ q, (∃ reply, (observe axum form repo req s).2.2 = [.list q reply]) ↔
              ∃ reply, (observe axum form repo req' s).2.2 = [.list q reply]) ∧
      ∀ (req : Request) (segment : String), req.method = .delete →
        req.path = "/tasks/" ++ segment → segment ≠ "" → '/' ∉ segment.toList →
          (∀ id force, (∃ reply, (observe axum form repo req s).2.2 = [.delete id force reply]) ↔
            NamesId axum segment id ∧ UnderstandsForce (axum.pairs req) force) ∧
          ((∀ id force, ¬ (NamesId axum segment id ∧ UnderstandsForce (axum.pairs req) force)) →
            Refused (observe axum form repo req s)) := by
  refine ⟨fun req method path => ?_, fun req segment method path nonempty single => ?_⟩
  · refine ⟨(list_exact method path s).1, (list_exact method path s).2, ?_⟩
    intro req' method' path' perm q
    rw [(list_exact method path s).1 q, (list_exact method' path' s).1 q]
    exact ⟨fun understood => understood.perm perm, fun understood => understood.perm perm.symm⟩
  · exact delete_exact method (matchRoute_eq_task.mpr ⟨path, nonempty, single⟩) s

end Requests

/-- The stack on the queries of the two requests below. -/
def queryAxum : Axum :=
  tabledAxum [("queue=agent", [("queue", "agent")]), ("force=true", [("force", "true")])] []

/-- `GET /tasks?queue=agent` -/
def getAgentQueue : Request :=
  { nopeRequest with path := "/tasks", query := some "queue=agent" }

/-- `DELETE /tasks/7?force=true` -/
def deleteSeven : Request :=
  { nopeRequest with method := .delete, path := "/tasks/7", query := some "force=true" }

/-- The one asks for the agent queue, and nothing else; the other to delete task 7 with
force. -/
theorem agent_queue_asked :
    (∃ reply, (observe queryAxum .verbatim (storeRepo String "0.1.0") getAgentQueue storesUp).2.2 =
        [.list { queue := some .agent, status := none, all := false } reply]) ∧
      ∃ reply, (observe queryAxum .verbatim (storeRepo String "0.1.0") deleteSeven storesUp).2.2 =
        [.delete 7 true reply] := by
  obtain ⟨lists, deletes⟩ := queries_exact queryAxum .verbatim (storeRepo String "0.1.0") storesUp
  constructor
  · exact ((lists getAgentQueue rfl rfl).1 _).mpr (listQuery_decode.mp rfl)
  · refine ((deletes deleteSeven "7" rfl (by decide) (by decide) (by decide)).1 7 true).mpr ?_
    exact ⟨⟨"7", by decide, by decide⟩, .inr ⟨"true", by decide, rfl⟩⟩

end CrewList.Server
