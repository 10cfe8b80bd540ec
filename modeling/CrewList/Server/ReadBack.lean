/-
# CrewList.Server.ReadBack -- a task detail, stored and read again

`stored_details` is about whatever the collection holds.  This module follows one detail
from the write that stores it.  Any document that spells the detail will do: what the
derive writes under a codec for dates, with an `_id`, in any order of keys.

* `insert_reply`: the validator refuses no such document, so the insert is acknowledged
  unless a key of it is taken;
* `Data.keeps`: a stored document goes only by a deletion that selects it or an update
  of a document under its `_id`;
* `inserted_detail_read`: so it is there for as long as nobody does either, and whoever
  reads a detail of that task reads this one.
-/
import CrewList.Server.Deployment

namespace CrewList.Server

open CrewList.Core
open CrewList.Store
open CrewList.Theory
open CrewList.Theory.Serde

set_option autoImplicit false

variable {ι : Type} {mongo : Mongo}

/-! ## One write -/

variable (mongo) in
/-- The write is no deletion of the document and no update under its `_id`. -/
def Write.Spares (doc : Bson) : Write → Prop
  | .insert _ => True
  | .update _ after => mongo.sharesKey "_id" doc after = false
  | .delete which => which doc = false

namespace Data

theorem accept_keeps {s : Data} {others : List Bson} {doc : Bson} (after : Bson)
    (member : doc ∈ s.documents) (beside : doc ∈ others) :
    doc ∈ (s.accept mongo others after).1.documents := by
  unfold Data.accept
  split
  · split
    · exact List.mem_append_left _ beside
    · exact member
  · exact member

/-- **A write that spares a document** leaves it where it is. -/
theorem write_keeps {s : Data} {doc : Bson} {x : Write} (member : doc ∈ s.documents)
    (spares : x.Spares mongo doc) : doc ∈ (s.write mongo x).1.documents := by
  cases x with
  | insert d => exact accept_keeps d member member
  | update place after =>
      simp only [write]
      split
      · exact member
      · rename_i before found
        split
        · rename_i shared
          refine accept_keeps after member ?_
          -- the document at `place` has its `_id` in common with `after`, this one has not
          obtain ⟨i, here⟩ := List.mem_iff_getElem?.mp member
          have other : i ≠ place := by
            rintro rfl
            rw [here, Option.some_inj] at found
            have apart : mongo.sharesKey "_id" before after = false := found ▸ spares
            rw [shared] at apart
            cases apart
          exact List.mem_eraseIdx_iff_getElem?.mpr ⟨i, other, here⟩
        · exact member
  | delete which => exact List.mem_filter.mpr ⟨member, by rw [spares]; rfl⟩

/-- No write of the access fails to spare the document. -/
def AccessSpares (mongo : Mongo) (doc : Bson) : Access → Prop
  | .statement _ => True
  | .write x _ => x.Spares mongo doc

theorem keeps {s s' : Data} {xs : List Access} {doc : Bson} (run : Run (Data.Step mongo) s xs s')
    (member : doc ∈ s.documents) (spares : ∀ x ∈ xs, AccessSpares mongo doc x) :
    doc ∈ s'.documents := by
  refine run.invariant_on (P := fun s => doc ∈ s.documents) (Q := AccessSpares mongo doc) ?_
    member spares
  intro s x s' member spares step
  cases step with
  | statement x => exact member
  | write x => exact write_keeps member spares

end Data

/-! ## From the insert on -/

/-- The index on `_id` is there from the first. -/
theorem Database.ids (d : Database mongo) : mongo.Apart "_id" d.documents := by
  unfold Database.documents
  split
  · exact .nil
  · rename_i c present
    exact c.ids

theorem Mongo.Apart.snoc {field : String} {docs : List Bson} {doc : Bson}
    (apart : mongo.Apart field docs) :
    mongo.Apart field (docs ++ [doc]) ↔
      ∀ other ∈ docs, mongo.sharesKey field other doc = false := by
  rw [Mongo.Apart, List.pairwise_append]
  simp only [List.pairwise_singleton, List.mem_singleton, forall_eq, true_and]
  exact and_iff_right apart

section Inserted

variable [DecidableEq ι]

/-- Neither key of the document is taken. -/
def KeysFree (mongo : Mongo) (documents : List Bson) (doc : Bson) : Prop :=
  ∀ other ∈ documents,
    mongo.sharesKey "_id" other doc = false ∧ mongo.sharesKey "task_id" other doc = false

/-- **An insert of an accepted document** is acknowledged, and the document stored, if its
keys are free; else nothing changes. -/
theorem insert_reply {w w' : Fleet ι mongo} {p : ι} {doc : Bson} {reply : WriteReply}
    (settled : Settled w) (accepted : detailValidator.accepts doc = true)
    (step : Deployed w (.write p (.insert doc) reply) w') :
    (KeysFree mongo w.store.documents doc ∧ reply = .acknowledged ∧
        w'.store.documents = w.store.documents ++ [doc]) ∨
      (¬ KeysFree mongo w.store.documents doc ∧ reply = .duplicateKey ∧
        w'.store.documents = w.store.documents) := by
  have free : KeysFree mongo w.store.documents doc ↔
      mongo.Apart "_id" (w.store.documents ++ [doc]) ∧
        mongo.Apart "task_id" (w.store.documents ++ [doc]) := by
    rw [Mongo.Apart.snoc w.store.ids, Mongo.Apart.snoc settled.apart]
    exact forall₂_and
  have stored : Data.Step mongo w.store.data (.write (.insert doc) reply) w'.store.data :=
    Guarded.data_step (.inl settled) step
  generalize after : w'.store.data = s' at stored
  have documents : w'.store.documents = s'.documents := congrArg Data.documents after
  rw [documents, free]
  cases stored with
  | write x =>
      by_cases keys : mongo.Apart "_id" (w.store.documents ++ [doc]) ∧
          mongo.Apart "task_id" (w.store.documents ++ [doc])
      · have written : w.store.data.write mongo (.insert doc) =
            ({ w.store.data with documents := w.store.documents ++ [doc] }, .acknowledged) := by
          show w.store.data.accept mongo w.store.documents doc = _
          rw [Data.accept, if_pos accepted, if_pos keys]
        rw [written]
        exact .inl ⟨keys, rfl, rfl⟩
      · have written : w.store.data.write mongo (.insert doc) =
            (w.store.data, .duplicateKey) := by
          show w.store.data.accept mongo w.store.documents doc = _
          rw [Data.accept, if_pos accepted, if_neg keys]
        rw [written]
        exact .inr ⟨keys, rfl, rfl⟩

/-- No two stored documents are read as details of one task. -/
theorem read_once {T : Type} {time : Codec Bson T} (keysLongs : mongo.KeysLongs) {s : Data}
    (conforms : s.Conforms) (taskIds : mongo.Apart "task_id" s.documents) {doc doc' : Bson}
    (member : doc ∈ s.documents) (member' : doc' ∈ s.documents) {d d' : TaskDetail T}
    (decoded : (TaskDetail.codec time).decode doc = .ok d)
    (decoded' : (TaskDetail.codec time).decode doc' = .ok d') (same : d'.taskId = d.taskId) :
    doc' = doc := by
  let Apart : Bson → Bson → Prop := fun x y =>
    ∀ n, longAt "task_id" x = some n → longAt "task_id" y ≠ some n
  have apart : s.documents.Pairwise Apart := by
    refine taskIds.imp ?_
    intro x y keys n left right
    rw [keysLongs "task_id" x y n left right] at keys
    cases keys
  have symm : Std.Symm Apart := ⟨fun x y xy n left right => xy n right left⟩
  have here := longAt_of_decoded (conforms doc member) decoded
  have there := longAt_of_decoded (conforms doc' member') decoded'
  by_contra different
  exact apart.forall member' member different d'.taskId there (same ▸ here)

/-- **What is stored is read back.**  In every run of the deployment from servers that are
all down, over documents the validator accepts: inserting a document that spells a detail is acknowledged exactly if neither
its `_id` nor its task is taken, and else changes no document; and once acknowledged,
after any further run in which no deletion selects the document and no update is of a
document under its `_id`, it is stored, decodes to that detail, and nothing else that
is stored decodes to a detail of the task. -/
theorem inserted_detail_read {T : Type} (c : DateCodec T) (keysLongs : mongo.KeysLongs)
    {w₀ w w' : Fleet ι mongo} {before : List (Action ι)} {p : ι} {doc : Bson} {d : TaskDetail T}
    {reply : WriteReply} (down : ∀ p, w₀.process p = .down) (conforms : w₀.store.data.Conforms)
    (earlier : Run Deployed w₀ before w) (version : 1 ≤ d.schemaVersion.toInt)
    (spelled : SpelledBy c.codec d doc) (step : Deployed w (.write p (.insert doc) reply) w') :
    (reply = .acknowledged ↔ KeysFree mongo w.store.documents doc) ∧
      (reply ≠ .acknowledged → w'.store.documents = w.store.documents) ∧
      (reply = .acknowledged → ∀ as w'', Run Deployed w' as w'' →
        (∀ q x r, .write q x r ∈ as → x.Spares mongo doc) →
          doc ∈ w''.store.documents ∧ (TaskDetail.codec c.codec).decode doc = .ok d ∧
            ∀ doc' ∈ w''.store.documents, ∀ d', (TaskDetail.codec c.codec).decode doc' = .ok d' →
              d'.taskId = d.taskId → doc' = doc) := by
  -- somebody listens, so no two documents have a `task_id` in common
  have settled : Settled w := by
    have guarded := (Guarded.of_down down).run earlier
    cases step with
    | write x listening => exact guarded.settled listening
  have accepted := ((spelledBy_iff_accepts (describes_date c)).mp ⟨d, version, spelled⟩).1
  have outcome := insert_reply settled accepted step
  refine ⟨?_, ?_, ?_⟩
  · rcases outcome with ⟨free, rfl, -⟩ | ⟨taken, rfl, -⟩
    · exact iff_of_true rfl free
    · exact iff_of_false nofun taken
  · intro refused
    rcases outcome with ⟨-, acknowledged, -⟩ | ⟨-, -, unchanged⟩
    · exact absurd acknowledged refused
    · exact unchanged
  · intro acknowledged as w'' later spares
    have whole : Run Deployed w₀ (before ++ .write p (.insert doc) reply :: as) w'' :=
      earlier.append (.cons step later)
    have final : w''.store.data.Conforms :=
      conforms.run ((Guarded.of_down down).data_run whole)
    have last : Settled w'' := (settled.run (.cons step later)).1
    have stored : doc ∈ w'.store.documents := by
      rcases outcome with ⟨-, -, added⟩ | ⟨-, refused, -⟩
      · rw [added]
        exact List.mem_append_right _ (.head _)
      · rw [refused] at acknowledged
        cases acknowledged
    have there : doc ∈ w''.store.documents := by
      refine Data.keeps (Guarded.data_run (.inl (settled.step step).1) later) stored ?_
      intro x member
      obtain ⟨a, inside, same⟩ := List.mem_filterMap.mp member
      cases a with
      | server l => cases same
      | statement q x =>
          cases same
          trivial
      | write q x r =>
          cases same
          exact spares q x r inside
    exact ⟨there, spelled.decode, fun doc' member' d' decoded' same =>
      read_once keysLongs final last.apart there member' spelled.decode decoded' same⟩

/-- `olderDocument` at a later time. -/
def revisedDocument : Bson :=
  .document [("_id", .objectId 3), ("task_id", .int64 2), ("schema_version", .int32 1),
    ("created_at", .dateTime 1), ("updated_at", .dateTime 9)]

/-- The server that has written dies; the other boots and revises the older document. -/
def afterwards : List (Action Bool) :=
  .server (.die false) :: .server (.boot true) :: calls true ++
    [.write true (.update 0 revisedDocument) .acknowledged]

theorem written_and_revised : ∃ w w' w'',
    Run Deployed olderServers (.server (.boot false) :: calls false) w ∧
      KeysFree keyedById w.store.documents bareDocument ∧ Deployed w insertBare w' ∧
      Run Deployed w' afterwards w'' ∧ w''.store.documents = [bareDocument, revisedDocument] :=
  ⟨_, _, _, .cons (.server (.boot rfl)) <| .cons (.server (.call .none rfl)) <|
    .cons (.server (.call .none rfl)) <| .cons (.server (.call .none rfl)) <|
    .cons (.server (.call .none rfl)) <| .cons (.server (.call .none rfl)) <|
    .cons (.server (.call .none rfl)) <| .cons (.server (.call .none rfl)) <| .nil _,
    List.forall_mem_singleton.mpr (by decide), .write (.insert bareDocument) rfl,
    .cons (.server (.die rfl)) <| .cons (.server (.boot rfl)) <|
    .cons (.server (.call .none rfl)) <| .cons (.server (.call .none rfl)) <|
    .cons (.server (.call .none rfl)) <| .cons (.server (.call .none rfl)) <|
    .cons (.server (.call .none rfl)) <| .cons (.server (.call .none rfl)) <|
    .cons (.server (.call .none rfl)) <| .cons (.write (.update 0 revisedDocument) rfl) <| .nil _,
    rfl⟩

/-- The document written by a server that has died since is read, and the one revised
meanwhile is of another task. -/
theorem first_document_read_back : ∃ (w : Fleet Bool keyedById) (d : TaskDetail ChronoMillis),
    w.store.documents = [bareDocument, revisedDocument] ∧ bareDocument ∈ w.store.documents ∧
      (TaskDetail.codec chronoDatetimeAsBsonDatetime.codec).decode bareDocument = .ok d ∧
      ∀ doc' ∈ w.store.documents, ∀ d',
        (TaskDetail.codec chronoDatetimeAsBsonDatetime.codec).decode doc' = .ok d' →
          d'.taskId = d.taskId → doc' = bareDocument := by
  obtain ⟨w, w', w'', earlier, free, write, later, documents⟩ := written_and_revised
  have written : bareDocument.DatesIn chronoDatetimeAsBsonDatetime.Written :=
    ⟨⟨⟨5, by decide⟩, rfl⟩, trivial, trivial, ⟨⟨3, by decide⟩, rfl⟩, trivial, trivial⟩
  obtain ⟨d, version, spelled⟩ := (spelledBy_iff_accepts (describes_date
    chronoDatetimeAsBsonDatetime)).mpr ⟨by decide, bareDocument_regular.1, written⟩
  have spares : ∀ q x r, .write q x r ∈ afterwards → x.Spares keyedById bareDocument := by
    intro q x r member
    simp only [afterwards, calls, List.cons_append, List.mem_cons, List.mem_append, List.mem_map,
      reduceCtorEq, and_false, exists_false, false_or, List.not_mem_nil, or_false,
      Action.write.injEq] at member
    obtain ⟨rfl, rfl, rfl⟩ := member
    show keyedById.sharesKey "_id" bareDocument revisedDocument = false
    decide
  have read := (inserted_detail_read chronoDatetimeAsBsonDatetime keyedById_keysLongs
    (fun _ => rfl) older_conforms earlier version spelled write).2.2 rfl _ w'' later spares
  exact ⟨w'', d, documents, read⟩

end Inserted

end CrewList.Server
