/-
# CrewList.Server.Deployment -- any number of servers over the stored data

Postgres and Mongo are reachable from the servers alone, and a server has a pool and
a database to use once it listens.  So the deployment takes two kinds of steps: those
of booting servers, with their faults and deaths, and the statements and writes of
listening ones, whatever the query layer will make them.

It is seen in two views.  Without the data it is `boot` (`Settled.step`), as long as no
two documents have a `task_id` in common; if two have, no server ever listens
(`Blocked`).  Without the servers it is a store that answers one statement or write after
the other and lets no document in that the detail validator refuses (`Data.Step`).  What
holds of the servers makes the other right: nobody writes before the rule and the index
are in place (`Guarded`).
-/
import CrewList.Server.Database

namespace CrewList.Server

open CrewList.Core
open CrewList.Store
open CrewList.Theory
open CrewList.Theory.Serde

set_option autoImplicit false

variable {ι : Type} {mongo : Mongo}

/-! ## The deployment -/

abbrev Fleet (ι : Type) (mongo : Mongo) := World ι Call (Database mongo)

inductive Action (ι : Type) where
  | server (l : Label ι Call Failure)
  | statement (p : ι) (x : Tasks.Statement)
  | write (p : ι) (x : Write) (reply : WriteReply)

/-- The label in the view of the boot. -/
def Action.label : Action ι → Option (Label ι Call Failure)
  | .server l => some l
  | _ => none

section Steps

variable [DecidableEq ι]

inductive Deployed : Fleet ι mongo → Action ι → Fleet ι mongo → Prop where
  | server {w w' : Fleet ι mongo} {l : Label ι Call Failure}
      (step : Step (deployment mongo) w l w') : Deployed w (.server l) w'
  | statement {w : Fleet ι mongo} {p : ι} (x : Tasks.Statement)
      (listening : w.process p = .running []) :
      Deployed w (.statement p x) (w.put (w.store.statement x))
  | write {w : Fleet ι mongo} {p : ι} (x : Write) (listening : w.process p = .running []) :
      Deployed w (.write p x (w.store.write x).2) (w.put (w.store.write x).1)

/-! ### Two servers over what an earlier build left -/

/-- A MongoDB for documents whose keys are ids. -/
def keyedById : Mongo where
  satisfies _ _ := true
  sharesKey field d d' :=
    let key (d : Bson) : Option (Int64 ⊕ BitVec 96) :=
      match d with
      | .document es =>
          match valuesAt es field with
          | [.int64 n] => some (.inl n)
          | [.objectId bytes] => some (.inr bytes)
          | _ => none
      | _ => none
    key d = key d'

/-- A document that is there before the validator is. -/
def olderDocument : Bson :=
  .document [("_id", .objectId 3), ("task_id", .int64 2), ("schema_version", .int32 1),
    ("created_at", .dateTime 1), ("updated_at", .dateTime 2)]

/-- Two servers over a collection that holds these documents, and nothing installed. -/
def olderFleet (documents : List Bson) (ids : keyedById.Apart "_id" documents) :
    Fleet Bool keyedById where
  store := {
    tasks := none
    taskDetails := some {
      validation := none
      taskIdUnique := false
      documents := documents
      ids := ids
      taskIds := nofun } }
  process _ := .down

/-- Another document of the same task. -/
def doubledDocument : Bson :=
  .document [("_id", .objectId 4), ("task_id", .int64 2), ("schema_version", .int32 1),
    ("created_at", .dateTime 1), ("updated_at", .dateTime 2)]

def olderServers : Fleet Bool keyedById := olderFleet [olderDocument] (List.pairwise_singleton _ _)

def doubledServers : Fleet Bool keyedById :=
  olderFleet [olderDocument, doubledDocument] (by decide)

/-- What a call is answered over a collection that is there. -/
def answered (k : Call) : Option Failure :=
  if k = .create then some (.command namespaceExists) else none

/-- The calls of a boot over such a collection, without faults. -/
def calls (p : Bool) : List (Action Bool) :=
  boot.calls.map fun k => .server (.call p k .none (answered k))

def insertBare : Action Bool := .write false (.insert bareDocument) .acknowledged

/-- The second server's boot, and a write of the first after its third call. -/
def secondBoot : List (Action Bool) := (calls true).take 3 ++ insertBare :: (calls true).drop 3

/-- The one boots and writes while the other does. -/
theorem two_boots : ∃ w w', Run Deployed olderServers (.server (.boot false) :: calls false) w ∧
    w.process true = .down ∧ Run Deployed w (.server (.boot true) :: secondBoot) w' ∧
    w'.store.documents = [olderDocument, bareDocument] ∧
    ∃ w'', Deployed w insertBare w'' ∧
      w''.store.documents = [olderDocument, bareDocument] := by
  refine ⟨_, _, .cons (.server (.boot rfl)) <| .cons (.server (.call .none rfl)) <|
    .cons (.server (.call .none rfl)) <| .cons (.server (.call .none rfl)) <|
    .cons (.server (.call .none rfl)) <| .cons (.server (.call .none rfl)) <|
    .cons (.server (.call .none rfl)) <| .cons (.server (.call .none rfl)) <| .nil _, rfl,
    .cons (.server (.boot rfl)) <| .cons (.server (.call .none rfl)) <|
    .cons (.server (.call .none rfl)) <| .cons (.server (.call .none rfl)) <|
    .cons (.write (.insert bareDocument) rfl) <| .cons (.server (.call .none rfl)) <|
    .cons (.server (.call .none rfl)) <| .cons (.server (.call .none rfl)) <|
    .cons (.server (.call .none rfl)) <| .nil _, rfl,
    _, .write (.insert bareDocument) rfl, rfl⟩

/-! ## In the view of the boot -/

/-- No two documents have a `task_id` in common, and the servers have reached, in the view
of the boot, where they are. -/
structure Settled (w : Fleet ι mongo) : Prop where
  apart : mongo.Apart "task_id" w.store.documents
  reachable : Reachable (w.map Database.schema)

theorem Settled.of_down {w : Fleet ι mongo} (down : ∀ p, w.process p = .down)
    (apart : mongo.Apart "task_id" w.store.documents) : Settled w :=
  ⟨apart, _, [], down, .nil _⟩

/-- Whoever listens, the stores are installed. -/
theorem Settled.installed {w : Fleet ι mongo} (settled : Settled w) {p : ι}
    (listening : w.process p = .running []) : Installed w.store.schema :=
  boot_safe settled.reachable listening

/-- Over an installed store a write leaves the schema, and no two documents with a
`task_id` in common. -/
theorem write_installed {d : Database mongo} (installed : Installed d.schema) (x : Write) :
    (d.write x).1.schema = d.schema ∧ mongo.Apart "task_id" (d.write x).1.documents := by
  obtain ⟨c, present, -, unique⟩ := Database.installed_details installed
  refine ⟨Database.write_schema (by simp [present]) x, ?_⟩
  rw [Database.write_of_present present]
  apply (c.write x).1.taskIds
  have same : (c.write x).1.schema.taskIdUnique = c.schema.taskIdUnique := by
    rw [c.write_schema]
  exact same.trans unique

/-- **One step of the deployment** is a step of the boot, or nothing the boot sees. -/
theorem Settled.step {w w' : Fleet ι mongo} {a : Action ι} (settled : Settled w)
    (step : Deployed w a w') :
    Settled w' ∧ Seen (Step boot) (w.map Database.schema) a.label (w'.map Database.schema) := by
  cases step with
  | server step =>
      obtain ⟨apart, seen⟩ := Database.deployment_refines.step settled.apart step
      obtain ⟨w₀, ls, down, run⟩ := settled.reachable
      exact ⟨⟨apart, w₀, _, down, run.append (.cons seen (.nil _))⟩, seen⟩
  | statement x listening =>
      have unseen : (w.put (w.store.statement x)).map Database.schema = w.map Database.schema := by
        show World.mk _ _ = World.mk _ _
        rw [World.put_store, Database.statement_schema]
        rfl
      refine ⟨⟨settled.apart, ?_⟩, unseen⟩
      rw [unseen]
      exact settled.reachable
  | write x listening =>
      obtain ⟨same, apart⟩ := write_installed (settled.installed listening) x
      have unseen : (w.put (w.store.write x).1).map Database.schema = w.map Database.schema := by
        show World.mk _ _ = World.mk _ _
        rw [World.put_store, same]
        rfl
      refine ⟨⟨apart, ?_⟩, unseen⟩
      rw [unseen]
      exact settled.reachable

theorem Settled.run {w w' : Fleet ι mongo} {as : List (Action ι)} (settled : Settled w)
    (run : Run Deployed w as w') :
    Settled w' ∧
      Run (Step boot) (w.map Database.schema) (as.filterMap Action.label)
        (w'.map Database.schema) := by
  refine Run.view (P := Settled) (World.map Database.schema) Action.label ?_ run settled
  intro s a t settled step
  exact settled.step step

/-! ## Documents in the way of the index -/

/-- Two documents have a `task_id` in common, and no server has got past its calls. -/
structure Blocked (w : Fleet ι mongo) : Prop where
  common : ¬ mongo.Apart "task_id" w.store.documents
  progress : ∀ p, Progress (deployment mongo) (fun k d => k.fact d.schema) p w

omit [DecidableEq ι] in
/-- The index a listening server has created leaves no such documents. -/
theorem Blocked.not_listening {w : Fleet ι mongo} (blocked : Blocked w) (p : ι) :
    w.process p ≠ .running [] := by
  intro listening
  have created : Call.createIndexes ∈ boot.calls := by decide
  obtain ⟨c', present, unique⟩ := (blocked.progress p).finished listening created
  obtain ⟨c, found, rfl⟩ := Option.map_eq_some_iff.mp present
  apply blocked.common
  rw [Database.documents, found]
  exact c.taskIds unique

theorem Blocked.step {w w' : Fleet ι mongo} {a : Action ι} (blocked : Blocked w)
    (step : Deployed w a w') : Blocked w' := by
  cases step with
  | server step =>
      refine ⟨?_, fun p => (blocked.progress p).step Database.deployment_establishes step ?_⟩
      · rw [(Database.step_data step).2]
        exact blocked.common
      · exact fun _ _ _ _ => trivial
  | statement x listening => exact absurd listening (blocked.not_listening _)
  | write x listening => exact absurd listening (blocked.not_listening _)

/-! ## Nobody listens too early -/

/-- Where the servers have got to, whatever documents there are. -/
def Guarded (w : Fleet ι mongo) : Prop := Settled w ∨ Blocked w

theorem Guarded.of_down {w : Fleet ι mongo} (down : ∀ p, w.process p = .down) : Guarded w := by
  by_cases apart : mongo.Apart "task_id" w.store.documents
  · exact .inl (.of_down down apart)
  · exact .inr ⟨apart, fun p => .down (down p)⟩

theorem Guarded.step {w w' : Fleet ι mongo} {a : Action ι} (guarded : Guarded w)
    (step : Deployed w a w') : Guarded w' := by
  rcases guarded with settled | blocked
  · exact .inl (settled.step step).1
  · exact .inr (blocked.step step)

theorem Guarded.run {w w' : Fleet ι mongo} {as : List (Action ι)} (guarded : Guarded w)
    (run : Run Deployed w as w') : Guarded w' :=
  run.invariant (P := Guarded) (fun guarded step => guarded.step step) guarded

/-- Who listens is in a fleet that is settled. -/
theorem Guarded.settled {w : Fleet ι mongo} (guarded : Guarded w) {p : ι}
    (listening : w.process p = .running []) : Settled w := by
  rcases guarded with settled | blocked
  · exact settled
  · exact absurd listening (blocked.not_listening p)

/-- **Nobody writes too early.**  After any run from servers that are all down, over any
documents, a statement or a write finds the migration applied, the validation rule in
place and the index unique. -/
theorem access_installed {w₀ w w' : Fleet ι mongo} {as : List (Action ι)} {a : Action ι}
    (down : ∀ p, w₀.process p = .down) (run : Run Deployed w₀ as w) (step : Deployed w a w')
    (access : a.label = none) : Installed w.store.schema := by
  have guarded := (Guarded.of_down down).run run
  cases step with
  | server step => cases access
  | statement x listening => exact (guarded.settled listening).installed listening
  | write x listening => exact (guarded.settled listening).installed listening

/-- A write over what an earlier build left finds everything installed. -/
theorem first_write_installed : ∃ as w, Run Deployed olderServers as w ∧
    Installed w.store.schema := by
  obtain ⟨w, -, run, -, -, -, w', write, -⟩ := two_boots
  exact ⟨_, w, run, access_installed (fun _ => rfl) run write rfl⟩

/-- **A boot without faults comes up**, whatever the listening servers store meanwhile, if no
two of the documents there were before had a `task_id` in common. -/
theorem deployed_boot_converges {w₀ w w' : Fleet ι mongo} {before as : List (Action ι)} {p : ι}
    (down : ∀ q, w₀.process q = .down) (apart : mongo.Apart "task_id" w₀.store.documents)
    (earlier : Run Deployed w₀ before w) (start : w.process p = .down)
    (run : Run Deployed w (.server (.boot p) :: as) w') (alive : .server (.die p) ∉ as)
    (faultless : ∀ k fault reply, .server (.call p k fault reply) ∈ as → fault = .none) :
    w'.process p = .running
        (boot.calls.drop ((as.filterMap Action.label).countP (Label.isCallOf p))) ∧
      (boot.calls.length ≤ (as.filterMap Action.label).countP (Label.isCallOf p) →
        w'.process p = .running [] ∧ w'.store.schema = installed) := by
  have settled := ((Settled.of_down down apart).run earlier).1
  have seen := (settled.run run).2
  have labelled : ∀ l, l ∈ as.filterMap Action.label → .server l ∈ as := by
    intro l member
    obtain ⟨a, inside, same⟩ := List.mem_filterMap.mp member
    cases a with
    | server l' =>
        cases same
        exact inside
    | _ => cases same
  have undisturbed := faultless_undisturbed (w := w.map Database.schema) start seen
    (fun dies => alive (labelled _ dies))
    fun k fault reply called => faultless k fault reply (labelled _ called)
  exact boot_converges settled.reachable seen undisturbed

/-- The second server comes up with its seventh call, while the first one writes. -/
theorem second_boot_converges : ∃ w w',
    Run Deployed olderServers (.server (.boot false) :: calls false) w ∧
      Run Deployed w (.server (.boot true) :: secondBoot) w' ∧
      w'.process true = .running [] ∧ w'.store.schema = installed := by
  obtain ⟨w, w', earlier, down, run, -⟩ := two_boots
  have alive : .server (.die true) ∉ secondBoot := by
    simp [secondBoot, calls, insertBare, boot, connect, initializeStores, initializeMongo]
  have faultless : ∀ k fault reply, .server (.call true k fault reply) ∈ secondBoot →
      fault = .none := by
    intro k fault reply member
    rcases List.mem_append.mp member with first | later
    · obtain ⟨k', -, same⟩ := List.mem_map.mp (List.mem_of_mem_take first)
      cases same
      rfl
    · rcases List.mem_cons.mp later with same | last
      · cases same
      · obtain ⟨k', -, same⟩ := List.mem_map.mp (List.mem_of_mem_drop last)
        cases same
        rfl
  have apart : keyedById.Apart "task_id" olderServers.store.documents :=
    List.pairwise_singleton _ _
  have converged := (deployed_boot_converges (fun _ => rfl) apart earlier down run alive
    faultless).2 (by decide)
  exact ⟨w, w', earlier, run, converged⟩

/-! ## Who can come up -/

/-- The steps of the servers are steps of the deployment. -/
theorem Deployed.of_run {w w' : Fleet ι mongo} {ls : List (Label ι Call Failure)}
    (run : Run (Step (deployment mongo)) w ls w') : Run Deployed w (ls.map .server) w' := by
  induction run with
  | nil w => exact .nil w
  | cons head _ ih => exact .cons (.server head) ih

/-- **Whether the deployment can come up at all.**  From servers that are all down: some run
has a server listen exactly when no two documents have a `task_id` in common.  If two
have, every boot fails at the index, and since nobody listens nobody removes them. -/
theorem can_serve_iff {w : Fleet ι mongo} (down : ∀ q, w.process q = .down) (p : ι) :
    (∃ as w', Run Deployed w as w' ∧ w'.process p = .running []) ↔
      mongo.Apart "task_id" w.store.documents := by
  constructor
  · rintro ⟨as, w', run, listening⟩
    by_contra common
    have start : Blocked w := ⟨common, fun q => .down (down q)⟩
    have blocked : Blocked w' := run.invariant (P := Blocked) (fun b s => b.step s) start
    exact blocked.not_listening p listening
  · intro apart
    obtain ⟨ls, v, run, listening, -⟩ :=
      exists_solo_run boot_clean (w := w.map Database.schema) (down p)
    obtain ⟨w', booted, seen, -⟩ := Database.deployment_refines.lift apart run
    refine ⟨_, w', Deployed.of_run booted, ?_⟩
    rw [← listening, ← seen]
    rfl

/-- Over what an earlier build left either server can come up; over the same documents twice,
each under an `_id` of its own, neither can. -/
theorem older_fleet_serves :
    (∃ as w, Run Deployed olderServers as w ∧ w.process true = .running []) ∧
      ¬ ∃ as w, Run Deployed doubledServers as w ∧ w.process true = .running [] :=
  ⟨(can_serve_iff (w := olderServers) (fun _ => rfl) true).mpr (List.pairwise_singleton _ _),
    fun serves => absurd ((can_serve_iff (fun _ => rfl) true).mp serves) (by decide)⟩

end Steps

/-! ## In the view of the data -/

/-- What the stores keep for their users. -/
structure Data where
  table : Tasks
  documents : List Bson

/-- What a user of the stores does. -/
inductive Access where
  | statement (x : Tasks.Statement)
  | write (x : Write) (reply : WriteReply)

def Database.data (d : Database mongo) : Data where
  table := d.table
  documents := d.documents

/-- The label in the view of the data. -/
def Action.access : Action ι → Option Access
  | .server _ => none
  | .statement _ x => some (.statement x)
  | .write _ x reply => some (.write x reply)

namespace Data

section Steps

variable (mongo)

/-- `after` beside `others`: the detail validator accepts it and every key is its own. -/
def accept (s : Data) (others : List Bson) (after : Bson) : Data × WriteReply :=
  if detailValidator.accepts after then
    if mongo.Apart "_id" (others ++ [after]) ∧ mongo.Apart "task_id" (others ++ [after]) then
      ({ s with documents := others ++ [after] }, .acknowledged)
    else (s, .duplicateKey)
  else (s, .documentValidationFailure)

def write (s : Data) : Write → Data × WriteReply
  | .insert d => s.accept mongo s.documents d
  | .update place d =>
      match s.documents[place]? with
      | none => (s, .acknowledged)
      | some before =>
          if mongo.sharesKey "_id" before d then s.accept mongo (s.documents.eraseIdx place) d
          else (s, .immutableField)
  | .delete which =>
      ({ s with documents := s.documents.filter fun d => !which d }, .acknowledged)

/-- A store that answers its users one after the other. -/
inductive Step : Data → Access → Data → Prop where
  | statement (s : Data) (x : Tasks.Statement) :
      Step s (.statement x) { s with table := s.table.execute x }
  | write (s : Data) (x : Write) : Step s (.write x (s.write mongo x).2) (s.write mongo x).1

end Steps

/-- The documents the detail validator does not accept. -/
def drifted (s : Data) : List Bson := s.documents.filter fun doc => !detailValidator.accepts doc

theorem accept_drifted {s : Data} {others : List Bson} (within : others.Sublist s.documents)
    (after : Bson) : (s.accept mongo others after).1.drifted.Sublist s.drifted := by
  unfold Data.accept
  split
  · rename_i accepted
    split
    · show (List.filter _ (others ++ [after])).Sublist _
      rw [List.filter_append, List.filter_singleton, accepted, Bool.not_true, cond_false,
        List.append_nil]
      exact within.filter _
    · exact .refl _
  · exact .refl _

theorem drifted_step {s s' : Data} {x : Access} (step : Data.Step mongo s x s') :
    s'.drifted.Sublist s.drifted := by
  cases step with
  | statement x => exact .refl _
  | write x =>
      cases x with
      | insert d => exact accept_drifted (.refl _) d
      | update place d =>
          simp only [write]
          split
          · exact .refl _
          · split
            · exact accept_drifted (List.eraseIdx_sublist ..) d
            · exact .refl _
      | delete which => exact List.Sublist.filter _ List.filter_sublist

theorem drifted_run {s s' : Data} {xs : List Access} (run : Run (Data.Step mongo) s xs s') :
    s'.drifted.Sublist s.drifted := by
  refine run.invariant (P := fun t => t.drifted.Sublist s.drifted) ?_ (.refl _)
  intro t x u shrunk step
  exact (drifted_step step).trans shrunk

/-- The detail validator accepts every document. -/
def Conforms (s : Data) : Prop := ∀ doc ∈ s.documents, detailValidator.accepts doc = true

theorem conforms_iff {s : Data} : s.Conforms ↔ s.drifted = [] := by
  rw [drifted, List.filter_eq_nil_iff, Conforms]
  simp

theorem Conforms.run {s s' : Data} {xs : List Access} (conforms : s.Conforms)
    (run : Run (Data.Step mongo) s xs s') : s'.Conforms := by
  have shrunk := drifted_run run
  rw [conforms_iff] at conforms ⊢
  rw [conforms] at shrunk
  exact List.sublist_nil.mp shrunk

end Data

namespace Details

/-- The data of a collection, beside a table. -/
def data (c : Details mongo) (t : Tasks) : Data where
  table := t
  documents := c.documents

variable {c : Details mongo} {t : Tasks}

theorem put_data (validation : c.validation = some detailValidation)
    (unique : c.taskIdUnique = true) (before : Option Bson) (others : List Bson) (after : Bson) :
    ((c.put before others after).1.data t, (c.put before others after).2) =
      (c.data t).accept mongo others after := by
  simp only [put, hold, Data.accept, validation, Option.all_some, detailValidation_permits, unique,
    true_implies]
  split
  · split <;> rfl
  · rfl

/-- **A write to an installed collection** is a write to the data. -/
theorem write_data (validation : c.validation = some detailValidation)
    (unique : c.taskIdUnique = true) (x : Write) :
    ((c.write x).1.data t, (c.write x).2) = (c.data t).write mongo x := by
  cases x with
  | insert d => exact put_data validation unique _ _ _
  | update place d =>
      simp only [write, Data.write, data]
      cases c.documents[place]? with
      | none => rfl
      | some before =>
          simp only
          split
          · exact put_data validation unique _ _ _
          · rfl
  | delete which =>
      have keys : mongo.Apart "_id" (c.documents.filter fun d => !which d) ∧
          (c.taskIdUnique = true → mongo.Apart "task_id" (c.documents.filter fun d => !which d)) :=
        ⟨c.ids.sublist List.filter_sublist, fun h => (c.taskIds h).sublist List.filter_sublist⟩
      simp only [write, hold, dif_pos keys]
      rfl

end Details

section Users

variable [DecidableEq ι]

/-- **One step of the deployment** is a step of the store, or nothing its users see. -/
theorem Guarded.data_step {w w' : Fleet ι mongo} {a : Action ι} (guarded : Guarded w)
    (step : Deployed w a w') :
    Seen (Data.Step mongo) w.store.data a.access w'.store.data := by
  cases step with
  | server step =>
      obtain ⟨table, documents⟩ := Database.step_data step
      show Data.mk _ _ = Data.mk _ _
      rw [table, documents]
  | statement x listening =>
      have settled := guarded.settled listening
      obtain ⟨t, present⟩ := Database.installed_table (settled.installed listening)
      have executed : (w.store.statement x).data =
          { w.store.data with table := w.store.data.table.execute x } := by
        simp [Database.statement, Database.data, Database.table, Database.documents, present]
      show Data.Step mongo _ _ (w.store.statement x).data
      rw [executed]
      exact .statement _ x
  | write x listening =>
      have settled := guarded.settled listening
      obtain ⟨c, present, validation, unique⟩ :=
        Database.installed_details (settled.installed listening)
      have before : w.store.data = c.data w.store.table := by
        show Data.mk _ _ = Data.mk _ _
        rw [Database.documents, present]
      have written := Details.write_data (t := w.store.table) validation unique x
      rw [← before] at written
      show Data.Step mongo _ (.write x (w.store.write x).2) (w.store.write x).1.data
      rw [Database.write_of_present present]
      have step : Data.Step mongo _ _ _ := .write w.store.data x
      rw [← written] at step
      exact step

/-- **What the servers' users see** of a run is a store that answers one statement or write
after the other.  Boots, faults, deaths and restarts change nothing, and every document
meets the validator and the indexes, from the first write on. -/
theorem Guarded.data_run {w w' : Fleet ι mongo} {as : List (Action ι)} (guarded : Guarded w)
    (run : Run Deployed w as w') :
    Run (Data.Step mongo) w.store.data (as.filterMap Action.access) w'.store.data := by
  refine (Run.view (P := Guarded) (fun w => w.store.data) Action.access ?_ run guarded).2
  intro s a t guarded step
  exact ⟨guarded.step step, guarded.data_step step⟩

/-- **The deployment is that store**, from servers that are all down, over any documents. -/
theorem deployed_data {w₀ w : Fleet ι mongo} {as : List (Action ι)}
    (down : ∀ p, w₀.process p = .down) (run : Run Deployed w₀ as w) :
    Run (Data.Step mongo) w₀.store.data (as.filterMap Action.access) w.store.data :=
  (Guarded.of_down down).data_run run

/-- Two boots and an insert come to one insert. -/
theorem first_write_stored : ∃ as w, Run Deployed olderServers as w ∧
    Run (Data.Step keyedById) olderServers.store.data
      [.write (.insert bareDocument) .acknowledged] w.store.data := by
  obtain ⟨w, w', earlier, -, run, -⟩ := two_boots
  have whole := earlier.append run
  exact ⟨_, w', whole, deployed_data (fun _ => rfl) whole⟩

/-! ## Documents older than the validator -/

/-- **Drift is never added.**  At any two moments of a run from servers that are all down,
over any documents: of those the validator does not accept, the later are among the
earlier, in the same order.  No write stores another one, or changes one and leaves it
refused. -/
theorem drift_only_shrinks {w₀ w w' : Fleet ι mongo} {before as : List (Action ι)}
    (down : ∀ p, w₀.process p = .down) (earlier : Run Deployed w₀ before w)
    (run : Run Deployed w as w') :
    w'.store.data.drifted.Sublist w.store.data.drifted :=
  Data.drifted_run (((Guarded.of_down down).run earlier).data_run run)

/-- A document that spells no detail. -/
def titledDocument : Bson := .document [("task_id", .int64 2), ("title", .string "buy milk")]

/-- Two servers over a collection that holds it. -/
def titledServers : Fleet Bool keyedById :=
  olderFleet [titledDocument] (List.pairwise_singleton _ _)

/-- It stays, and nothing beside it is refused. -/
theorem titled_document_stays : ∃ as w, Run Deployed titledServers as w ∧
    w.store.documents = [titledDocument, bareDocument] ∧
    w.store.data.drifted.Sublist [titledDocument] := by
  have run : Run Deployed titledServers (.server (.boot false) :: calls false) _ :=
    .cons (.server (.boot rfl)) <| .cons (.server (.call .none rfl)) <|
    .cons (.server (.call .none rfl)) <| .cons (.server (.call .none rfl)) <|
    .cons (.server (.call .none rfl)) <| .cons (.server (.call .none rfl)) <|
    .cons (.server (.call .none rfl)) <| .cons (.server (.call .none rfl)) <| .nil _
  have whole := run.append (.cons (.write (p := false) (.insert bareDocument) rfl) (.nil _))
  exact ⟨_, _, whole, rfl, drift_only_shrinks (fun _ => rfl) (.nil _) whole⟩

/-! ## Reading what is stored -/

/-- The one value of the field, if it is a `long`. -/
def longAt (field : String) : Bson → Option Int64
  | .document es =>
      match valuesAt es field with
      | [.int64 n] => some n
      | _ => none
  | _ => none

/-- MongoDB gives documents with the same `long` the same key. -/
def Mongo.KeysLongs (mongo : Mongo) : Prop :=
  ∀ field d d' n, longAt field d = some n → longAt field d' = some n →
    mongo.sharesKey field d d' = true

/-- The `task_id` of an accepted document is the id that is read from it, whatever the
timestamps are read as. -/
theorem longAt_of_decoded {T : Type} {time : Codec Bson T} {doc : Bson} {d : TaskDetail T}
    (accepted : detailValidator.accepts doc = true)
    (decoded : (TaskDetail.codec time).decode doc = .ok d) :
    longAt "task_id" doc = some d.taskId := by
  rw [detailValidator, Schema.accepts_closed] at accepted
  obtain ⟨es, rfl, -, each⟩ := accepted
  have reads := ((TaskDetail.table time).decode_entries_eq_ok false rfl).mp decoded
  rcases reads.1.1 with ⟨v, once, read⟩ | ⟨-, default⟩
  · have written : ("task_id", v) ∈ es := by
      rw [← mem_valuesAt]
      exact once ▸ List.mem_singleton_self v
    obtain ⟨s, found, typed⟩ := each _ written
    have property : detailProperties.lookup "task_id" = some (.ofType [.long]) := rfl
    cases property.symm.trans found
    rw [Schema.accepts_ofType] at typed
    cases v with
    | int64 n =>
        have same : n = d.taskId := by
          have encoded := (Codec.i64 Bson).decode_encode n
          exact Except.ok.inj (encoded.symm.trans read)
        have once : valuesAt es "task_id" = [.int64 n] := once
        simp only [longAt, once, same]
    | _ => simp [Bson.type] at typed
  · cases default

/-- **What is stored can be read, one detail for each task.**  After any run from servers
that are all down, over documents the validator accepts: every document with distinct
keys, and dates the codec reads, decodes to the one detail it spells; no two documents
are read as details of one task, if none were before the run; and under chrono's default
form none is read at all. -/
theorem stored_details {T T' : Type} (c : DateCodec T) (form : TextForm T')
    (keysLongs : mongo.KeysLongs) {w₀ w : Fleet ι mongo} {as : List (Action ι)}
    (down : ∀ p, w₀.process p = .down) (conforms : w₀.store.data.Conforms)
    (run : Run Deployed w₀ as w) :
    (∀ doc ∈ w.store.documents, doc.DistinctKeys → doc.DatesIn c.Readable →
        ∃ d, 1 ≤ d.schemaVersion.toInt ∧ SpelledBy c.reading d doc ∧
          (TaskDetail.codec c.codec).decode doc = .ok d) ∧
      (mongo.Apart "task_id" w₀.store.documents →
        ∀ time : Codec Bson T, w.store.documents.Pairwise fun doc doc' =>
          ∀ d d', (TaskDetail.codec time).decode doc = .ok d →
            (TaskDetail.codec time).decode doc' = .ok d' → d.taskId ≠ d'.taskId) ∧
      ∀ doc ∈ w.store.documents, ∀ d,
        (TaskDetail.codec (isoTime Bson form)).decode doc ≠ .ok d := by
  have final := conforms.run ((Guarded.of_down down).data_run run)
  refine ⟨fun doc member distinct readable => ?_, fun apart time => ?_, fun doc member => ?_⟩
  · obtain ⟨d, version, spelled⟩ := (spelledBy_iff_accepts (describes_readable c)).mpr
      ⟨final doc member, distinct, readable⟩
    refine ⟨d, version, spelled, ?_⟩
    rw [← decode_reading]
    exact spelled.decode
  · have settled := ((Settled.of_down down apart).run run).1
    refine settled.apart.imp_of_mem ?_
    intro doc doc' member member' apart d d' decoded decoded' same
    have left := longAt_of_decoded (final doc member) decoded
    have right := longAt_of_decoded (final doc' member') decoded'
    rw [← same] at right
    rw [keysLongs "task_id" doc doc' _ left right] at apart
    cases apart
  · exact accepted_not_decoded form (final doc member)

theorem keyedById_keysLongs : keyedById.KeysLongs := by
  have key : ∀ {field d n}, longAt field d = some n →
      ∃ es, d = .document es ∧ valuesAt es field = [.int64 n] := by
    intro field d n found
    cases d with
    | document es =>
        refine ⟨es, rfl, ?_⟩
        simp only [longAt] at found
        split at found
        · rename_i m once
          cases found
          exact once
        · cases found
    | _ => cases found
  intro field d d' n left right
  obtain ⟨es, rfl, once⟩ := key left
  obtain ⟨es', rfl, once'⟩ := key right
  simp [keyedById, once, once']

theorem older_conforms : olderServers.store.data.Conforms :=
  List.forall_mem_singleton.mpr (by decide)

theorem bareDocument_regular :
    bareDocument.DistinctKeys ∧ bareDocument.DatesIn chronoDatetimeAsBsonDatetime.Readable := by
  refine ⟨by simp [bareDocument, Bson.DistinctKeys, Bson.DistinctKeysEntries], ?_⟩
  exact ⟨⟨⟨5, by decide⟩, rfl⟩, trivial, trivial, ⟨⟨3, by decide⟩, rfl⟩, trivial, trivial⟩

/-- The document stored beside an older one is read, and the two are of two tasks. -/
theorem first_document_read : ∃ as w, Run Deployed olderServers as w ∧
    w.store.documents = [olderDocument, bareDocument] ∧
    (∃ d, (TaskDetail.codec chronoDatetimeAsBsonDatetime.codec).decode bareDocument = .ok d) ∧
    w.store.documents.Pairwise fun doc doc' => ∀ d d',
      (TaskDetail.codec chronoDatetimeAsBsonDatetime.codec).decode doc = .ok d →
        (TaskDetail.codec chronoDatetimeAsBsonDatetime.codec).decode doc' = .ok d' →
          d.taskId ≠ d'.taskId := by
  obtain ⟨w, w', earlier, -, run, documents, -⟩ := two_boots
  have whole := earlier.append run
  obtain ⟨read, distinct, -⟩ := stored_details chronoDatetimeAsBsonDatetime .verbatim
    keyedById_keysLongs (fun _ => rfl) older_conforms whole
  obtain ⟨d, -, -, decoded⟩ :=
    read bareDocument (by simp [documents]) bareDocument_regular.1 bareDocument_regular.2
  exact ⟨_, w', whole, documents, ⟨d, decoded⟩, distinct (List.pairwise_singleton _ _) _⟩

end Users

end CrewList.Server
