/-
# CrewList.Server.Boot -- the calls a server makes before it listens

`main` connects to the stores, runs the migration, installs the Mongo schema and
binds, in that order; `?` after each call takes the process down, except that
`create` may answer that the collection exists.  The commands are separate, so any
of them may be the last thing a boot achieves.

The store is what those commands write: whether the migration is applied, and the
collection with its validation rule and its index.  `boot_safe` and
`boot_converges` are the two halves of what the order of the calls is for: nobody
listens before everything is installed, and a boot that is let through installs
everything, whatever it found.
-/
import CrewList.Store.Validator
import CrewList.Theory.Install

namespace CrewList.Server

open CrewList.Core
open CrewList.Store
open CrewList.Theory
open CrewList.Theory.Serde

set_option autoImplicit false

/-! ## The stores -/

inductive ValidationLevel where
  | off | moderate | strict
  deriving DecidableEq, Repr

inductive ValidationAction where
  | warn | error | errorAndLog
  deriving DecidableEq, Repr

/-- The `validator` option of a collection: a `$jsonSchema`, or another query. -/
inductive CollectionValidator where
  | jsonSchema (schema : Schema)
  | query (expression : Bson)

structure Validation where
  validator : CollectionValidator
  validationLevel : ValidationLevel
  validationAction : ValidationAction

/-- What the boot commands can see of the collection `task_details`. -/
structure Collection where
  validation : Option Validation
  taskIdUnique : Bool

/-- Postgres, as far as migration 0001 goes, and the Mongo database. -/
structure StoreState where
  migrated : Bool
  taskDetails : Option Collection

/-- `mongodb::error::ErrorKind`: a command error with its code, or any other kind;
for the other calls, any error. -/
inductive Failure where
  | command (code : Int32)
  | other (message : String)
  deriving DecidableEq

/-- Mongo's "collection already exists". -/
def namespaceExists : Int32 := 48

def isNamespaceExists : Failure → Bool
  | .command code => code = namespaceExists
  | .other _ => false

/-- The code for a command on a collection that does not exist. -/
def namespaceNotFound : Int32 := 26

namespace StoreState

/-- `MIGRATOR.run`: applies 0001 if it is pending. -/
def migrate (s : StoreState) : StoreState × Option Failure :=
  ({ s with migrated := true }, none)

def create (s : StoreState) : StoreState × Option Failure :=
  match s.taskDetails with
  | none => ({ s with taskDetails := some { validation := none, taskIdUnique := false } }, none)
  | some _ => (s, some (.command namespaceExists))

def collMod (v : Validation) (s : StoreState) : StoreState × Option Failure :=
  match s.taskDetails with
  | none => (s, some (.command namespaceNotFound))
  | some c => ({ s with taskDetails := some { c with validation := some v } }, none)

/-- `createIndexes` creates a missing collection. -/
def createIndexes (s : StoreState) : StoreState × Option Failure :=
  match s.taskDetails with
  | none => ({ s with taskDetails := some { validation := none, taskIdUnique := true } }, none)
  | some c => ({ s with taskDetails := some { c with taskIdUnique := true } }, none)

@[simp] theorem create_migrated (s : StoreState) : s.create.1.migrated = s.migrated := by
  unfold create
  split <;> rfl

@[simp] theorem collMod_migrated (v : Validation) (s : StoreState) :
    (s.collMod v).1.migrated = s.migrated := by
  unfold collMod
  split <;> rfl

@[simp] theorem createIndexes_migrated (s : StoreState) :
    s.createIndexes.1.migrated = s.migrated := by
  unfold createIndexes
  split <;> rfl

end StoreState

/-! ## The boot sequence -/

inductive Call where
  | connectPostgres | connectMongo | migrate | create | collMod | createIndexes | bind
  deriving DecidableEq, Repr

/-- The rule `collMod` puts in place. -/
def detailValidation : Validation where
  validator := .jsonSchema detailValidator
  validationLevel := .strict
  validationAction := .error

def Call.run : Call → StoreState → StoreState × Option Failure
  | .connectPostgres, s => (s, none)
  | .connectMongo, s => (s, none)
  | .migrate, s => s.migrate
  | .create, s => s.create
  | .collMod, s => s.collMod detailValidation
  | .createIndexes, s => s.createIndexes
  | .bind, s => (s, none)

/-- The one error that is matched away instead of returned. -/
def Call.tolerates : Call → Failure → Bool
  | .create, e => isNamespaceExists e
  | _, _ => false

/-- `Stores::connect` -/
def connect : List Call := [.connectPostgres, .connectMongo]

/-- `MongoStore::initialize` -/
def initializeMongo : List Call := [.create, .collMod, .createIndexes]

/-- `Stores::initialize` -/
def initializeStores : List Call := [.migrate] ++ initializeMongo

/-- `main` up to `axum::serve`. -/
def boot : Sequence Call StoreState Failure where
  calls := connect ++ initializeStores ++ [.bind]
  run := Call.run
  tolerates := Call.tolerates

/-! ## What each call leaves behind -/

/-- What a call that was let through has established for good. -/
def Call.fact : Call → StoreState → Prop
  | .migrate, s => s.migrated = true
  | .collMod, s => ∃ c, s.taskDetails = some c ∧ c.validation = some detailValidation
  | .createIndexes, s => ∃ c, s.taskDetails = some c ∧ c.taskIdUnique = true
  | _, _ => True

/-- The same for a call that met no fault: then the collection exists after `create`,
whichever of its two answers came. -/
def Call.cleanFact : Call → StoreState → Prop
  | .create, s => ∃ c, s.taskDetails = some c
  | k, s => k.fact s

theorem run_keeps_collection (k : Call) {s : StoreState} {c : Collection}
    (present : s.taskDetails = some c) :
    ∃ c', (k.run s).1.taskDetails = some c' ∧
      (c.validation = some detailValidation → c'.validation = some detailValidation) ∧
      (c.taskIdUnique = true → c'.taskIdUnique = true) := by
  cases k with
  | collMod =>
      refine ⟨{ c with validation := some detailValidation }, ?_, fun _ => rfl, id⟩
      simp [Call.run, StoreState.collMod, present]
  | createIndexes =>
      refine ⟨{ c with taskIdUnique := true }, ?_, id, fun _ => rfl⟩
      simp [Call.run, StoreState.createIndexes, present]
  | create => exact ⟨c, by simp [Call.run, StoreState.create, present], id, id⟩
  | _ => exact ⟨c, present, id, id⟩

theorem run_keeps_migrated (k : Call) {s : StoreState} (applied : s.migrated = true) :
    (k.run s).1.migrated = true := by
  cases k with
  | migrate => rfl
  | create => exact (StoreState.create_migrated s).trans applied
  | collMod => exact (StoreState.collMod_migrated _ s).trans applied
  | createIndexes => exact (StoreState.createIndexes_migrated s).trans applied
  | _ => exact applied

theorem fact_stable (j k : Call) {s : StoreState} (holds : j.fact s) : j.fact (k.run s).1 := by
  cases j with
  | migrate => exact run_keeps_migrated k holds
  | collMod =>
      obtain ⟨c, present, installed⟩ := holds
      obtain ⟨c', present', validation, -⟩ := run_keeps_collection k present
      exact ⟨c', present', validation installed⟩
  | createIndexes =>
      obtain ⟨c, present, installed⟩ := holds
      obtain ⟨c', present', -, unique⟩ := run_keeps_collection k present
      exact ⟨c', present', unique installed⟩
  | _ => trivial

theorem fact_run {k : Call} {s : StoreState} (answered : (k.run s).2 = none) :
    k.fact (k.run s).1 := by
  cases k with
  | migrate => rfl
  | collMod =>
      simp only [Call.run, StoreState.collMod] at answered ⊢
      cases found : s.taskDetails with
      | none => simp [found] at answered
      | some c => exact ⟨{ c with validation := some detailValidation }, rfl, rfl⟩
  | createIndexes =>
      simp only [Call.run, StoreState.createIndexes]
      cases s.taskDetails with
      | none => exact ⟨{ validation := none, taskIdUnique := true }, rfl, rfl⟩
      | some c => exact ⟨{ c with taskIdUnique := true }, rfl, rfl⟩
  | _ => trivial

/-- Only `create` is ever let through with an error. -/
theorem passes_iff {k : Call} {reply : Option Failure} :
    boot.passes k reply = true ↔
      ∀ e, reply = some e → k = .create ∧ isNamespaceExists e = true := by
  cases reply with
  | none => simp [Sequence.passes]
  | some e => cases k <;> simp [Sequence.passes, boot, Call.tolerates]

/-- **What the boot sequence rests on**, under any faults. -/
theorem boot_establishes : Establishes boot (fun _ _ => True) Call.fact where
  passed k fault s _ passes := by
    cases reply : (boot.exec k fault s).2 with
    | none =>
        cases fault with
        | none => exact fact_run reply
        | before e => cases reply
        | after e => cases reply
    | some e =>
        rw [reply, passes_iff] at passes
        rw [(passes e rfl).1]
        trivial
  stable j k s := fact_stable j k

theorem create_before_collMod {done rest : List Call}
    (split : boot.calls = done ++ .collMod :: rest) : Call.create ∈ done := by
  have place : ∀ i < boot.calls.length, boot.calls[i]? = some .collMod → i = 4 := by decide
  have here : boot.calls[done.length]? = some .collMod := by
    rw [split, List.getElem?_append_right (le_refl _), Nat.sub_self]
    rfl
  have fourth := place _ (List.getElem?_eq_some_iff.mp here).1 here
  have before : done = boot.calls.take done.length := by rw [split, List.take_left]
  rw [before, fourth]
  decide

theorem boot_clean : Clean boot Call.cleanFact where
  establishes := {
    passed := by
      rintro k fault s rfl passes
      cases k with
      | create =>
          simp only [Sequence.exec, boot, Call.run, StoreState.create, Call.cleanFact]
          cases found : s.taskDetails with
          | none => exact ⟨_, rfl⟩
          | some c => exact ⟨c, found⟩
      | _ => exact boot_establishes.passed _ .none s trivial passes
    stable := by
      intro j k s holds
      cases j with
      | create =>
          obtain ⟨c, present⟩ := holds
          obtain ⟨c', present', -⟩ := run_keeps_collection k present
          exact ⟨c', present'⟩
      | migrate => exact fact_stable .migrate k holds
      | collMod => exact fact_stable .collMod k holds
      | createIndexes => exact fact_stable .createIndexes k holds
      | _ => trivial }
  passes := by
    intro done k rest s split held
    cases k with
    | create =>
        rw [passes_iff]
        intro e answered
        simp only [boot, Call.run, StoreState.create] at answered
        split at answered <;> cases answered
        exact ⟨rfl, rfl⟩
    | collMod =>
        have created : Call.create ∈ done := create_before_collMod split
        obtain ⟨c, present⟩ := held _ created
        simp [boot, Call.run, StoreState.collMod, present, Sequence.passes]
    | createIndexes =>
        simp only [boot, Call.run, StoreState.createIndexes, Sequence.passes]
        split <;> rfl
    | _ => rfl

/-! ## Installed stores -/

/-- Migration 0001 is applied, and the collection exists with exactly this build's
rule and the unique index. -/
def Installed (s : StoreState) : Prop :=
  s.migrated = true ∧ ∃ c, s.taskDetails = some c ∧ c.validation = some detailValidation ∧
    c.taskIdUnique = true

/-- The state every completed boot leaves. -/
def installed : StoreState where
  migrated := true
  taskDetails := some { validation := some detailValidation, taskIdUnique := true }

theorem installed_iff {s : StoreState} : Installed s ↔ s = installed := by
  constructor
  · rintro ⟨applied, ⟨validation, unique⟩, present, rfl, rfl⟩
    cases s
    cases applied
    cases present
    rfl
  · rintro rfl
    exact ⟨rfl, _, rfl, rfl, rfl⟩

theorem installed_iff_facts {s : StoreState} :
    Installed s ↔ ∀ k ∈ boot.calls, k.fact s := by
  constructor
  · rintro ⟨applied, c, present, validation, unique⟩ k -
    cases k with
    | migrate => exact applied
    | collMod => exact ⟨c, present, validation⟩
    | createIndexes => exact ⟨c, present, unique⟩
    | _ => trivial
  · intro facts
    obtain ⟨c, present, validation⟩ := facts .collMod (by decide)
    obtain ⟨c', present', unique⟩ := facts .createIndexes (by decide)
    cases present.symm.trans present'
    exact ⟨facts .migrate (by decide), c, present, validation, unique⟩

/-! ## Runs of any number of servers -/

section Runs

variable {ι : Type} [DecidableEq ι]

abbrev Servers (ι : Type) := World ι Call StoreState

/-- Every call is behind it, `bind` included. -/
def Listening (w : Servers ι) (p : ι) : Prop := w.process p = .running []

/-- Reached from some state of the stores with no server up. -/
def Reachable (w : Servers ι) : Prop :=
  ∃ w₀ ls, (∀ p, w₀.process p = .down) ∧ Run (Step boot) w₀ ls w

/-- The label is not the death of `p`, nor an error `p` meets, `create` answering
that the collection exists apart. -/
def Undisturbed (p : ι) (l : Label ι Call Failure) : Prop :=
  l ≠ .die p ∧
    ∀ k fault e, l = .call p k fault (some e) → k = .create ∧ isNamespaceExists e = true

/-- **Nobody listens before everything is installed.** -/
theorem boot_safe {w : Servers ι} (reachable : Reachable w) {p : ι} (listening : Listening w p) :
    Installed w.store := by
  obtain ⟨w₀, ls, down, run⟩ := reachable
  have progress := Progress.run boot_establishes run (.down (down p)) fun _ _ _ _ _ _ => trivial
  exact installed_iff_facts.mpr fun k member => progress.finished listening member

/-- What is installed stays installed. -/
theorem installed_stable {w w' : Servers ι} {ls : List (Label ι Call Failure)}
    (run : Run (Step boot) w ls w') (start : Installed w.store) : Installed w'.store := by
  rw [installed_iff_facts] at start ⊢
  exact fun k member => boot_establishes.run_stable run (start k member)

omit [DecidableEq ι] in
theorem Undisturbed.smooth {p : ι} {l : Label ι Call Failure} (undisturbed : Undisturbed p l) :
    Smooth boot p l := by
  refine ⟨undisturbed.1, fun k fault reply own => passes_iff.mpr fun e answered => ?_⟩
  subst answered
  exact undisturbed.2 k fault e own

/-- **A boot that is let through installs everything**, whatever it found and
whatever the other servers do meanwhile. -/
theorem boot_converges {w w' : Servers ι} (reachable : Reachable w) {p : ι}
    {ls : List (Label ι Call Failure)} (run : Run (Step boot) w (.boot p :: ls) w')
    (undisturbed : ∀ l ∈ ls, Undisturbed p l) :
    w'.process p = .running (boot.calls.drop (ls.countP (Label.isCallOf p))) ∧
      (boot.calls.length ≤ ls.countP (Label.isCallOf p) →
        Listening w' p ∧ w'.store = installed) := by
  have past := running_drop run fun l member => (undisturbed l member).smooth
  refine ⟨past, fun all => ?_⟩
  have listening : Listening w' p := by
    rw [Listening, past, List.drop_of_length_le all]
  obtain ⟨w₀, before, down, start⟩ := reachable
  exact ⟨listening, installed_iff.mp (boot_safe ⟨w₀, _, down, start.append run⟩ listening)⟩

/-- Without faults the only error a boot meets is the tolerated one. -/
theorem faultless_undisturbed {w w' : Servers ι} {p : ι} (down : w.process p = .down)
    {ls : List (Label ι Call Failure)} (run : Run (Step boot) w (.boot p :: ls) w')
    (alive : .die p ∉ ls)
    (faultless : ∀ k fault reply, .call p k fault reply ∈ ls → fault = .none) :
    ∀ l ∈ ls, Undisturbed p l := by
  intro l member
  refine ⟨fun same => alive (same ▸ member), fun k fault e own => ?_⟩
  have passes := faultless_passes boot_clean down run (by
    intro l member k fault reply own
    subst own
    rcases List.mem_cons.mp member with same | later
    · cases same
    · exact faultless k fault reply later) l (.tail _ member) k fault _ own
  exact passes_iff.mp passes e rfl

/-- **Boot safety and convergence.**  From any state of the stores, with any number
of servers interleaved in any order, faults and deaths included: whoever listens
finds everything installed, and it stays so; and a server that boots and meets no
error but the tolerated one is past as many calls as it made, and listens after the
last of them over the one installed state.  It meets no other error when its calls
meet no fault, and so can boot alone from wherever the others left off. -/
theorem boot_safety_and_convergence :
    (∀ (w : Servers ι) (p : ι), Reachable w → Listening w p →
        Installed w.store ∧ ∀ ls w', Run (Step boot) w ls w' → Installed w'.store) ∧
      ∀ (w : Servers ι) (p : ι), Reachable w → w.process p = .down →
        (∀ ls w', Run (Step boot) w (.boot p :: ls) w' → (∀ l ∈ ls, Undisturbed p l) →
          w'.process p = .running (boot.calls.drop (ls.countP (Label.isCallOf p))) ∧
            (boot.calls.length ≤ ls.countP (Label.isCallOf p) →
              Listening w' p ∧ w'.store = installed)) ∧
        (∀ ls w', Run (Step boot) w (.boot p :: ls) w' → .die p ∉ ls →
          (∀ k fault reply, .call p k fault reply ∈ ls → fault = .none) →
            ∀ l ∈ ls, Undisturbed p l) ∧
        ∃ ls w', Run (Step boot) w (.boot p :: ls) w' ∧ Listening w' p ∧ w'.store = installed ∧
          ∀ l ∈ ls, ∃ k reply, l = .call p k .none reply := by
  refine ⟨fun w p reachable listening => ?_, fun w p reachable down => ⟨?_, ?_, ?_⟩⟩
  · have start := boot_safe reachable listening
    exact ⟨start, fun ls w' run => installed_stable run start⟩
  · exact fun ls w' run undisturbed => boot_converges reachable run undisturbed
  · exact fun ls w' run alive faultless => faultless_undisturbed down run alive faultless
  · obtain ⟨ls, w', run, listening, own⟩ := exists_solo_run boot_clean down
    obtain ⟨w₀, before, allDown, start⟩ := reachable
    have final := boot_safe ⟨w₀, _, allDown, start.append run⟩ listening
    exact ⟨ls, w', run, listening, installed_iff.mp final, own⟩

end Runs

/-- Two servers over stores no earlier boot has touched. -/
def firstBoot : Servers (Fin 2) where
  store := { migrated := false, taskDetails := none }
  process _ := .down

/-- The first of them can boot by itself. -/
theorem first_server_boots :
    ∃ ls w', Run (Step boot) firstBoot (.boot 0 :: ls) w' ∧ Listening w' 0 ∧
      w'.store = installed ∧ ∀ l ∈ ls, ∃ k reply, l = .call 0 k .none reply :=
  (boot_safety_and_convergence.2 firstBoot 0 ⟨firstBoot, [], fun _ => rfl, .nil _⟩ rfl).2.2

end CrewList.Server
