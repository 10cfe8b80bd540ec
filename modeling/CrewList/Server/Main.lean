/-
# CrewList.Server.Main -- `main` up to the point where it serves, and what it reports

The functions of `main.rs` and `crewlist-store` that run before a server serves, as
programs whose calls are those of the boot sequence: each error is wrapped by the
function that meets it, and put under a context by `main`.  Together they are that
sequence (`main_eq`), so what is known of its runs is known of every fleet of servers,
each with its environment.

`exit_tells`: the report a server exits with says what its configuration was, and how
far the stores have got.
-/
import CrewList.Core.Error
import CrewList.Server.Boot
import CrewList.Server.Config
import CrewList.Theory.Program

namespace CrewList.Server.Main

open CrewList.Core
open CrewList.Theory
open CrewList.Theory.Net

set_option autoImplicit false

/-! ## The functions -/

/-- `anyhow::Error`: a message of the program's own, or an error under its context. -/
inductive Report where
  | message (text : String)
  | store (context : String) (e : StoreError)
  | io (context : String) (cause : String)

/-- A function that makes calls and returns a `Result`. -/
abbrev Calls (ε α : Type) := ExceptT ε (Program Call (Fails Failure)) α

section Functions

/- `text` is how the drivers and the operating system put their errors. -/
variable (text : Failure → String)

/-- `PgStore::connect` -/
def connectPostgres : Calls StoreError Unit :=
  .attempt .connectPostgres fun e => .connect "postgres" (text e)

/-- `MongoStore::connect` -/
def connectMongo : Calls StoreError Unit :=
  .attempt .connectMongo fun e => .connect "mongo" (text e)

/-- `Stores::connect` -/
def connectStores : Calls StoreError Unit := do
  connectPostgres text
  connectMongo text

/-- `PgStore::migrate` -/
def migrate : Calls StoreError Unit :=
  .attempt .migrate fun e => .migrate (text e)

/-- `MongoStore::run` -/
def runCommand (command : Call) : Calls StoreError Unit :=
  .attempt command fun e => .init "mongo" (text e)

/-- `MongoStore::initialize` -/
def initializeMongo : Calls StoreError Unit := do
  match ← ExceptT.lift (.request .create) with
  | none => pure ()
  | some e => if isNamespaceExists e then pure () else throw (.init "mongo" (text e))
  runCommand text .collMod
  runCommand text .createIndexes

/-- `Stores::initialize` -/
def initializeStores : Calls StoreError Unit := do
  migrate text
  initializeMongo text

/-- `main`, with the listener bound at the end of it. -/
def main (env : Environment) : Calls Report Unit := do
  let config ← ExceptT.mk (pure ((Config.fromEnv env).mapError .message))
  Program.mapError (.store "connecting to stores") (connectStores text)
  Program.mapError (.store "initializing schema; refusing to serve") (initializeStores text)
  .attempt .bind fun e => .io ("binding " ++ config.bind.toString) (text e)

end Functions

/-! ## `main` as the boot sequence -/

section Reports

variable (text : Failure → String)

/-- The error a function of the stores returns for a call's. -/
def storeError : Call → Failure → StoreError
  | .connectPostgres, e => .connect "postgres" (text e)
  | .connectMongo, e => .connect "mongo" (text e)
  | .migrate, e => .migrate (text e)
  | _, e => .init "mongo" (text e)

/-- What `main` reports for a call's error. -/
def report (addr : SocketAddr) : Call → Failure → Report
  | .connectPostgres, e => .store "connecting to stores" (storeError text .connectPostgres e)
  | .connectMongo, e => .store "connecting to stores" (storeError text .connectMongo e)
  | .bind, e => .io ("binding " ++ addr.toString) (text e)
  | k, e => .store "initializing schema; refusing to serve" (storeError text k e)

/-- What `main` does before its first call. -/
def setup (env : Environment) : Except Report (Call → Failure → Report) :=
  ((Config.fromEnv env).mapError .message).map fun config => report text config.bind

/-- A function of the stores that makes one call and returns its error. -/
theorem attempt_eq {k : Call} (returned : ∀ e, Call.tolerates k e = false) :
    Program.attempt k (storeError text k) = .mk (.inOrder Call.tolerates (storeError text) [k]) :=
  Program.attempt_eq returned

theorem connectStores_eq :
    connectStores text = .mk (.inOrder Call.tolerates (storeError text) connect) := by
  have postgres : connectPostgres text = _ := attempt_eq text fun _ => rfl
  have mongo : connectMongo text = _ := attempt_eq text fun _ => rfl
  rw [connectStores, postgres, mongo, Program.inOrder_append]
  rfl

/-- Matching the tolerated error away is going on after it. -/
theorem initializeMongo_eq :
    initializeMongo text =
      .mk (.inOrder Call.tolerates (storeError text) Server.initializeMongo) := by
  have collMod : runCommand text .collMod = _ := attempt_eq text fun _ => rfl
  have createIndexes : runCommand text .createIndexes = _ := attempt_eq text fun _ => rfl
  rw [initializeMongo, collMod, createIndexes, Program.inOrder_append]
  show Program.call Call.create _ = Program.call Call.create _
  congr 1
  funext reply
  cases reply <;> rfl

theorem initializeStores_eq :
    initializeStores text =
      .mk (.inOrder Call.tolerates (storeError text) Server.initializeStores) := by
  have migrated : migrate text = _ := attempt_eq text fun _ => rfl
  rw [initializeStores, migrated, initializeMongo_eq, Program.inOrder_append]
  rfl

/-- **`main` is the boot sequence**, after its configuration and with its reports. -/
theorem main_eq {ι : Type} (env : ι → Environment) (p : ι) :
    (main text (env p)).run = mainOf boot (fun p => setup text (env p)) p := by
  rw [main, mainOf, setup]
  cases Config.fromEnv (env p) with
  | error message => rfl
  | ok config =>
      have connected : Program.mapError (.store "connecting to stores") (connectStores text) =
          .mk (.inOrder Call.tolerates (report text config.bind) connect) := by
        rw [connectStores_eq, Program.mapError_inOrder]
        refine congrArg ExceptT.mk (Program.inOrder_congr fun k member => ?_)
        cases k <;> first | rfl | exact absurd member (by decide)
      have initialized : Program.mapError (.store "initializing schema; refusing to serve")
            (initializeStores text) =
          .mk (.inOrder Call.tolerates (report text config.bind) Server.initializeStores) := by
        rw [initializeStores_eq, Program.mapError_inOrder]
        refine congrArg ExceptT.mk (Program.inOrder_congr fun k member => ?_)
        cases k <;> first | rfl | exact absurd member (by decide)
      have bound : Program.attempt .bind (report text config.bind .bind) =
          .mk (.inOrder Call.tolerates (report text config.bind) [.bind]) :=
        Program.attempt_eq fun _ => rfl
      show ExceptT.run (do
        Program.mapError _ (connectStores text)
        Program.mapError _ (initializeStores text)
        Program.attempt .bind (report text config.bind .bind)) = _
      rw [connected, initialized, bound, Program.inOrder_append, Program.inOrder_append]
      rfl

end Reports

/-! ## Fleets of servers -/

section Fleets

variable {ι : Type} [DecidableEq ι] (text : Failure → String) (env : ι → Environment)

/-- Any number of servers over one pair of stores, each with its environment. -/
abbrev MainStep := ProgramStep boot fun p => (main text (env p)).run

abbrev Mains (ι : Type) := Threads ι Call (Fails Failure) (Except Report Unit) StoreState

/-- What a report says of the environment and of the stores. -/
def Tells (env : Environment) (s : StoreState) : Report → Prop
  | .message message => Config.fromEnv env = .error message
  | .store context e =>
      (∃ config, Config.fromEnv env = .ok config) ∧
        ((context = "connecting to stores" ∧ ∃ store cause, e = .connect store cause) ∨
          (context = "initializing schema; refusing to serve" ∧
            ((∃ cause, e = .migrate cause) ∨
              (s.migrated = true ∧ ∃ cause, e = .init "mongo" cause))))
  | .io context _ =>
      ∃ config, Config.fromEnv env = .ok config ∧ context = "binding " ++ config.bind.toString ∧
        Installed s

/-- The server serves: `main` is past everything that may fail. -/
def Serves {σ : Type} (w : Threads ι Call (Fails Failure) (Except Report Unit) σ) (p : ι) : Prop :=
  w.thread p = .running (.done (.ok ()))

theorem setup_ok {env : Environment} {reports : Call → Failure → Report}
    (set : setup text env = .ok reports) :
    ∃ config, Config.fromEnv env = .ok config ∧ reports = report text config.bind := by
  rw [setup] at set
  cases found : Config.fromEnv env with
  | error message =>
      rw [found] at set
      cases set
  | ok config =>
      rw [found] at set
      cases set
      exact ⟨config, rfl, rfl⟩

theorem setup_error {env : Environment} {r : Report} (unset : setup text env = .error r) :
    ∃ message, Config.fromEnv env = .error message ∧ r = .message message := by
  rw [setup] at unset
  cases found : Config.fromEnv env with
  | error message =>
      rw [found] at unset
      cases unset
      exact ⟨message, rfl, rfl⟩
  | ok config =>
      rw [found] at unset
      cases unset

/-- The calls before one of these that leave a fact. -/
theorem before_call {done rest : List Call} {k : Call} (split : boot.calls = done ++ k :: rest) :
    (k = .create ∨ k = .collMod ∨ k = .createIndexes → Call.migrate ∈ done) ∧
      (k = .bind → ∀ j ∈ boot.calls, j ∈ done ∨ j = .bind) := by
  have place : ∀ i < boot.calls.length, ∀ k, boot.calls[i]? = some k →
      (k = .create ∨ k = .collMod ∨ k = .createIndexes → Call.migrate ∈ boot.calls.take i) ∧
        (k = .bind → ∀ j ∈ boot.calls, j ∈ boot.calls.take i ∨ j = .bind) := by decide
  have here : boot.calls[done.length]? = some k := by
    rw [split, List.getElem?_append_right (le_refl _), Nat.sub_self]
    rfl
  have before : done = boot.calls.take done.length := by rw [split, List.take_left]
  rw [before]
  exact place _ (List.getElem?_eq_some_iff.mp here).1 k here

omit [DecidableEq ι] in
theorem tells_of_reported {p : ι} {s : StoreState} {r : Report}
    (reported : Reported boot (fun p => setup text (env p)) Call.fact p s r) :
    Tells (env p) s r := by
  rcases reported with unset | ⟨reports, done, k, rest, e, set, split, -, rfl, held⟩
  · obtain ⟨message, found, rfl⟩ := setup_error text unset
    exact found
  · obtain ⟨config, found, rfl⟩ := setup_ok text set
    have configured : ∃ config, Config.fromEnv (env p) = .ok config := ⟨config, found⟩
    obtain ⟨migrated, all⟩ := before_call split
    cases k with
    | connectPostgres | connectMongo => exact ⟨configured, .inl ⟨rfl, _, _, rfl⟩⟩
    | migrate => exact ⟨configured, .inr ⟨rfl, .inl ⟨_, rfl⟩⟩⟩
    | create | collMod | createIndexes =>
        have applied : s.migrated = true := held _ (migrated (by decide))
        exact ⟨configured, .inr ⟨rfl, .inr ⟨applied, _, rfl⟩⟩⟩
    | bind =>
        refine ⟨config, found, rfl, installed_iff_facts.mpr fun j member => ?_⟩
        rcases all rfl j member with before | rfl
        · exact held j before
        · trivial

variable {text env}

theorem mainStep_eq :
    MainStep text env = ProgramStep boot (mainOf boot fun p => setup text (env p)) := by
  rw [MainStep]
  congr 1
  funext p
  exact main_eq text env p

/-- **The programs run the boot sequence.** -/
theorem mains_follow {w w' : Mains ι} {ls : List (ProgramEvent ι Call Failure Report)}
    (down : ∀ p, w.thread p = .down) (run : Run (MainStep text env) w ls w') :
    (∀ p, Follows boot (fun p => setup text (env p)) Call.fact p w') ∧
      Run (Step boot) w.view
        (ls.filterMap (ProgramEvent.label fun p => setup text (env p))) w'.view := by
  rw [mainStep_eq] at run
  exact Follows.run boot_establishes down run

omit [DecidableEq ι] in
theorem Serves.installed {w : Mains ι} {p : ι} (serves : Serves w p)
    (follows : Follows boot (fun p => setup text (env p)) Call.fact p w) :
    (∃ config, Config.fromEnv (env p) = .ok config) ∧ Installed w.store := by
  obtain ⟨⟨reports, set⟩, facts⟩ := follows.finished serves
  obtain ⟨config, found, -⟩ := setup_ok text set
  exact ⟨⟨config, found⟩, installed_iff_facts.mpr facts⟩

/-- **What a server's end tells.**  From any state of the stores with no server up, in any
interleaving, faults and deaths included: a server that serves found its configuration
complete, and everything is installed; and the report of a server that exits says which
configuration it found and how far the stores have got by then: under `initializing
schema` with an error of Mongo's, the migration is applied, and under `binding`, with the
address it was given, everything is installed. -/
theorem exit_tells (text : Failure → String) (env : ι → Environment) (w w' : Mains ι)
    (ls : List (ProgramEvent ι Call Failure Report)) (down : ∀ p, w.thread p = .down)
    (run : Run (MainStep text env) w ls w') (p : ι) :
    (Serves w' p → (∃ config, Config.fromEnv (env p) = .ok config) ∧ Installed w'.store) ∧
      ∀ r w'', MainStep text env w' (.exit p r) w'' → Tells (env p) w'.store r := by
  have follows := (mains_follow down run).1 p
  refine ⟨fun serves => serves.installed follows, ?_⟩
  rintro r w'' (_ | _ | _ | failed)
  rcases follows with idle | ⟨reports, done, rest, set, split, up, held⟩ | ⟨r', failed', reported⟩
  · rw [idle] at failed
    cases failed
  · rw [up] at failed
    cases rest <;> cases failed
  · rw [failed'] at failed
    cases failed
    exact tells_of_reported text env reported

/-- Both URLs and no bind address. -/
def localEnvironment : Environment := fun key =>
  if key = "CREWLIST_POSTGRES_URL" then some (.unicode "postgres://localhost/crewlist")
  else if key = "CREWLIST_MONGO_URL" then some (.unicode "mongodb://localhost")
  else none

def localConfig : Config where
  bind := .v4 ⟨127, 0, 0, 1⟩ 8787
  postgresUrl := "postgres://localhost/crewlist"
  mongoUrl := "mongodb://localhost"

theorem localEnvironment_complete : Config.fromEnv localEnvironment = .ok localConfig :=
  fromEnv_ok.mpr ⟨parse_defaultBind, rfl, rfl⟩

/-- One server, down, over stores no boot has touched. -/
def idleMain : Mains Unit where
  store := { migrated := false, taskDetails := none }
  thread _ := .down

/-- A server whose Postgres refuses it exits with that, which tells that its
configuration was complete. -/
theorem refused_connection_told :
    Tells localEnvironment idleMain.store
      (.store "connecting to stores" (.connect "postgres" "connection refused")) := by
  let refused : Failure → String := fun _ => "connection refused"
  obtain ⟨next, started, gaveUp⟩ : ∃ next, (main refused localEnvironment).run =
      .call .connectPostgres next ∧ ∀ e, next (some e) =
        .done (.error
          (.store "connecting to stores" (.connect "postgres" "connection refused"))) := by
    rw [main_eq refused (fun _ : Unit => localEnvironment) (), mainOf, setup,
      localEnvironment_complete]
    exact ⟨_, rfl, fun _ => rfl⟩
  have booted : MainStep refused (fun _ => localEnvironment) idleMain (.step (.boot ())) _ :=
    .boot rfl
  have up := (Threads.set_thread_self idleMain () _).trans (congrArg Thread.running started)
  have called : MainStep refused (fun _ => localEnvironment) _
      (.step (.call () .connectPostgres (.before (.other "")) _)) _ :=
    .call (.before (.other "")) up
  refine (exit_tells refused (fun _ => localEnvironment) idleMain _ _ (fun _ => rfl)
    (.cons booted (.cons called (.nil _))) ()).2 _ _ (.exit ?_)
  rw [Threads.set_thread_self]
  exact congrArg Thread.running (gaveUp (.other ""))

end Fleets

end CrewList.Server.Main
