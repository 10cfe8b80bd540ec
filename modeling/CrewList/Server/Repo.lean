/-
# CrewList.Server.Repo -- the port between routes and storage

`Port` is the trait the handlers depend on, with its methods in any monad.  The trait's
methods are async: an operation is a program of the calls it awaits, and of what happens
between two of them others may have a part.  `storePort` is the production adapter in
these terms, over the pings of the two stores.

A `TaskRepo` is a port whose operations take effect at once on a state it keeps; over
stores that stay as they are the adapter is one (`storeRepo`).  `recorded` is what the
tests' double does, for any repo at all: it keeps the operations called and their
replies, and changes nothing else.
-/
import CrewList.Core.Dto
import CrewList.Theory.Program

namespace CrewList.Server

open CrewList.Core
open CrewList.Theory

set_option autoImplicit false

/-! ## Operations -/

inductive Operation where
  | create (request : CreateTaskRequest)
  | get (id : TaskId)
  | list (query : ListQuery)
  | delete (id : TaskId) (force : Bool)
  | health

/-- What an operation is replied. -/
def Reply (T : Type) : Operation → Type
  | .create _ => Except CrewError CreatedTask
  | .get _ => Except CrewError (TaskView T)
  | .list _ => Except CrewError (TaskListResponse T)
  | .delete _ _ => Except CrewError DeletedTask
  | .health => HealthResponse

/-- `trait TaskRepo`, in any monad. -/
structure Port (m : Type → Type) (T : Type) where
  create : CreateTaskRequest → m (Except CrewError CreatedTask)
  get : TaskId → m (Except CrewError (TaskView T))
  list : ListQuery → m (Except CrewError (TaskListResponse T))
  delete : TaskId → Bool → m (Except CrewError DeletedTask)
  health : m HealthResponse

/-- A repo whose operations take effect at once, on a state it keeps. -/
abbrev TaskRepo (σ T : Type) := Port (StateM σ) T

section Ports

variable {m : Type → Type} {T K : Type} {R : K → Type}

def Port.perform (port : Port m T) : (op : Operation) → m (Reply T op)
  | .create request => port.create request
  | .get id => port.get id
  | .list query => port.list query
  | .delete id force => port.delete id force
  | .health => port.health

/-- The port that only asks. -/
def asking (T : Type) : Port (Program Operation (Reply T)) T where
  create request := .request (R := Reply T) (.create request)
  get id := .request (R := Reply T) (.get id)
  list query := .request (R := Reply T) (.list query)
  delete id force := .request (R := Reply T) (.delete id force)
  health := .request (R := Reply T) .health

theorem asking_perform (op : Operation) : (asking T).perform op = .request op := by
  cases op <;> rfl

variable [Monad m]

/-- The port with its calls made by another monad. -/
def Port.over (port : Port (Program K R) T) (exec : (k : K) → m (R k)) : Port m T where
  create request := (port.create request).runWith exec
  get id := (port.get id).runWith exec
  list query := (port.list query).runWith exec
  delete id force := (port.delete id force).runWith exec
  health := port.health.runWith exec

/-- What a port is asked for, it does. -/
theorem asking_over [LawfulMonad m] (port : Port m T) : (asking T).over port.perform = port := by
  have asked : ∀ op, (Program.request (R := Reply T) op).runWith port.perform = port.perform op :=
    fun op => Program.runWith_request op
  obtain ⟨create, get, list, delete, health⟩ := port
  rw [Port.over, Port.mk.injEq]
  exact ⟨funext fun request => asked (.create request), funext fun id => asked (.get id),
    funext fun query => asked (.list query),
    funext fun id => funext fun force => asked (.delete id force), asked .health⟩

end Ports

/-! ## The production adapter -/

/-- `PgStore::ping` and `MongoStore::ping` -/
inductive Ping where
  | postgres | mongo
  deriving DecidableEq, Repr

/-- What a ping is answered. -/
abbrev Pinged : Ping → Type := fun _ => Except StoreError Unit

def componentHealth : Except StoreError Unit → ComponentHealth
  | .ok () => .healthy
  | .error e => .failed e.toString

def healthReport (version : String) (postgres mongo : Except StoreError Unit) :
    HealthResponse where
  server := .okWithVersion version
  postgres := componentHealth postgres
  mongo := componentHealth mongo

/-- `impl TaskRepo for StoreRepo`; `version` is `CARGO_PKG_VERSION`. -/
def storePort (T : Type) (version : String) : Port (Program Ping Pinged) T where
  create _ := pure (.error (.unimplemented "create task"))
  get _ := pure (.error (.unimplemented "get task"))
  list _ := pure (.error (.unimplemented "list tasks"))
  delete _ _ := pure (.error (.unimplemented "delete task"))
  health := do
    let postgres ← .request (R := Pinged) .postgres
    let mongo ← .request (R := Pinged) .mongo
    return healthReport version postgres mongo

/-- What pinging each store answers. -/
structure Stores where
  postgres : Except StoreError Unit
  mongo : Except StoreError Unit

/-- Stores that answer every ping as they are and stay so. -/
def Stores.answer : Ping → StateM Stores (Except StoreError Unit)
  | .postgres => fun stores => (stores.postgres, stores)
  | .mongo => fun stores => (stores.mongo, stores)

/-- `StoreRepo` over such stores. -/
def storeRepo (T : Type) (version : String) : TaskRepo Stores T :=
  (storePort T version).over Stores.answer

theorem componentHealth_ok {ping : Except StoreError Unit} :
    (componentHealth ping).ok = true ↔ ping = .ok () := by
  cases ping with
  | ok answer => exact ⟨fun _ => rfl, fun _ => rfl⟩
  | error e => exact ⟨nofun, nofun⟩

/-- The server reports itself healthy exactly when both stores answer, and otherwise
says which one did not and why. -/
theorem healthReport_exact (version : String) (postgres mongo : Except StoreError Unit) :
    let report := healthReport version postgres mongo
    (report.allOk = true ↔ postgres = .ok () ∧ mongo = .ok ()) ∧
      (∀ e, postgres = .error e → report.postgres = .failed e.toString) ∧
      ∀ e, mongo = .error e → report.mongo = .failed e.toString := by
  refine ⟨?_, fun e down => ?_, fun e down => ?_⟩
  · rw [← componentHealth_ok, ← componentHealth_ok]
    show (true && _ && _) = true ↔ _
    rw [Bool.true_and, Bool.and_eq_true]
    rfl
  · show componentHealth postgres = _
    rw [down]
    rfl
  · show componentHealth mongo = _
    rw [down]
    rfl

/-! ## Recording -/

/-- An operation called, with its reply. -/
inductive Exchange (T : Type) where
  | create (request : CreateTaskRequest) (reply : Except CrewError CreatedTask)
  | get (id : TaskId) (reply : Except CrewError (TaskView T))
  | list (query : ListQuery) (reply : Except CrewError (TaskListResponse T))
  | delete (id : TaskId) (force : Bool) (reply : Except CrewError DeletedTask)
  | health (reply : HealthResponse)

def Exchange.of {T : Type} : (op : Operation) → Reply T op → Exchange T
  | .create request, reply => .create request reply
  | .get id, reply => .get id reply
  | .list query, reply => .list query reply
  | .delete id force, reply => .delete id force reply
  | .health, report => .health report

/-- The error replied, if any. -/
def Exchange.error {T : Type} : Exchange T → Option CrewError
  | .create _ (.error e) | .get _ (.error e) | .list _ (.error e) | .delete _ _ (.error e) => some e
  | _ => none

section Recording

variable {σ T α β : Type}

/-- Run the operation and keep the exchange. -/
def record (exchange : α → Exchange T) (op : StateM σ α) :
    StateM (σ × List (Exchange T)) α := fun (s, log) =>
  let (reply, s') := op.run s
  (reply, s', log ++ [exchange reply])

@[simp] theorem record_run (exchange : α → Exchange T) (op : StateM σ α) (s : σ)
    (log : List (Exchange T)) :
    (record exchange op).run (s, log) =
      ((op.run s).1, (op.run s).2, log ++ [exchange (op.run s).1]) := rfl

def TaskRepo.recorded (repo : TaskRepo σ T) : TaskRepo (σ × List (Exchange T)) T where
  create request := record (.create request) (repo.create request)
  get id := record (.get id) (repo.get id)
  list query := record (.list query) (repo.list query)
  delete id force := record (.delete id force) (repo.delete id force)
  health := record .health repo.health

/-- `m'` does to the repo's state and answers what `m` does, whatever it records. -/
def Transparent (m' : StateM (σ × List (Exchange T)) α) (m : StateM σ α) : Prop :=
  ∀ s log, ((m'.run (s, log)).1, (m'.run (s, log)).2.1) = m.run s

theorem transparent_pure (a : α) : Transparent (T := T) (pure a) (pure a : StateM σ α) :=
  fun _ _ => rfl

theorem transparent_record (exchange : α → Exchange T) (op : StateM σ α) :
    Transparent (record exchange op) op := fun _ _ => rfl

theorem Transparent.bind {m' : StateM (σ × List (Exchange T)) α} {m : StateM σ α}
    {f' : α → StateM (σ × List (Exchange T)) β} {f : α → StateM σ β}
    (first : Transparent m' m) (next : ∀ a, Transparent (f' a) (f a)) :
    Transparent (m' >>= f') (m >>= f) := by
  intro s log
  have ran := first s log
  show _ = (f (m.run s).1).run (m.run s).2
  rw [← ran]
  exact next _ _ _

theorem transparent_perform (repo : TaskRepo σ T) (op : Operation) :
    Transparent (repo.recorded.perform op) (repo.perform op) := by
  cases op <;> exact transparent_record _ _

theorem transparent_runWith (repo : TaskRepo σ T) (p : Program Operation (Reply T) α) :
    Transparent (p.runWith repo.recorded.perform) (p.runWith repo.perform) := by
  induction p with
  | done a => exact transparent_pure a
  | call op next ih => exact (transparent_perform repo op).bind ih

/-- The operation, done by a repo. -/
def Operation.perform (repo : TaskRepo σ T) (op : Operation) : StateM σ (Exchange T) :=
  return .of op (← repo.perform op)

theorem recorded_perform (repo : TaskRepo σ T) (op : Operation) (s : σ)
    (log : List (Exchange T)) :
    (repo.recorded.perform op).run (s, log) =
      (((repo.perform op).run s).1, ((repo.perform op).run s).2,
        log ++ [((op.perform repo).run s).1]) := by
  cases op <;> rfl

end Recording

end CrewList.Server
