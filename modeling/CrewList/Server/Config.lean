/-
# CrewList.Server.Config -- the configuration, read from the environment

`config.rs`.  The environment is the one `dotenvy` leaves.  A bind address that is not
set, or is not Unicode, is the default one on loopback; the two URLs must be set.
`config_exact` says of every environment what comes of it.
-/
import CrewList.Theory.SocketAddr

namespace CrewList.Server

open CrewList.Theory.Net

set_option autoImplicit false

/-! ## The environment -/

/-- A variable's value; on Unix it may be any bytes. -/
inductive Variable where
  | unicode (text : String)
  | notUnicode (bytes : List UInt8)

abbrev Environment := String → Option Variable

inductive VarError where
  | notPresent | notUnicode
  deriving DecidableEq, Repr

/-- `env::var` -/
def var (env : Environment) (key : String) : Except VarError String :=
  match env key with
  | some (.unicode text) => .ok text
  | some (.notUnicode _) => .error .notUnicode
  | none => .error .notPresent

/-- `DEFAULT_BIND`: loopback, since anything that can open a socket has full control. -/
def defaultBind : String := "127.0.0.1:8787"

@[ext]
structure Config where
  bind : SocketAddr
  postgresUrl : String
  mongoUrl : String

def required (env : Environment) (key : String) : Except String String :=
  (var env key).mapError fun _ => key ++ " must be set"

/-- The text of an `AddrParseError` for a socket address. -/
def addrParseError : String := "invalid socket address syntax"

def notSocketAddress (bind : String) : String :=
  "CREWLIST_BIND is not a socket address: " ++ bind ++ ": " ++ addrParseError

/-- `unwrap_or_else(|_| DEFAULT_BIND.to_string())` -/
def bindText (env : Environment) : String :=
  match var env "CREWLIST_BIND" with
  | .ok text => text
  | .error _ => defaultBind

/-- `Config::from_env` -/
def Config.fromEnv (env : Environment) : Except String Config := do
  let bind ←
    match parse (bindText env) with
    | some addr => .ok addr
    | none => .error (notSocketAddress (bindText env))
  let postgresUrl ← required env "CREWLIST_POSTGRES_URL"
  let mongoUrl ← required env "CREWLIST_MONGO_URL"
  return { bind, postgresUrl, mongoUrl }

/-! ## What an environment says -/

/-- The variable is set to this text. -/
def Sets (env : Environment) (key text : String) : Prop := env key = some (.unicode text)

theorem var_ok {env : Environment} {key text : String} :
    var env key = .ok text ↔ Sets env key text := by
  unfold var Sets
  split <;> simp_all

theorem required_ok {env : Environment} {key text : String} :
    required env key = .ok text ↔ Sets env key text := by
  rw [← var_ok, required]
  cases var env key <;> simp [Except.mapError]

theorem required_error {env : Environment} {key message : String} :
    required env key = .error message ↔
      (∀ text, ¬ Sets env key text) ∧ message = key ++ " must be set" := by
  simp only [← var_ok, required]
  cases var env key <;> simp [Except.mapError, eq_comm]

/-- The text the address is parsed from: what is set, or the default. -/
theorem bindText_eq {env : Environment} {text : String} :
    bindText env = text ↔
      Sets env "CREWLIST_BIND" text ∨
        ((∀ t, ¬ Sets env "CREWLIST_BIND" t) ∧ text = defaultBind) := by
  simp only [← var_ok, bindText]
  cases var env "CREWLIST_BIND" <;> simp [eq_comm]

theorem parse_defaultBind : parse defaultBind = some (.v4 ⟨127, 0, 0, 1⟩ 8787) := by decide

/-- `from_env` with its three readings side by side. -/
theorem fromEnv_ok {env : Environment} {c : Config} :
    Config.fromEnv env = .ok c ↔
      parse (bindText env) = some c.bind ∧ Sets env "CREWLIST_POSTGRES_URL" c.postgresUrl ∧
        Sets env "CREWLIST_MONGO_URL" c.mongoUrl := by
  rw [← required_ok, ← required_ok, Config.fromEnv]
  cases parse (bindText env) <;> cases required env "CREWLIST_POSTGRES_URL" <;>
    cases required env "CREWLIST_MONGO_URL" <;>
    simp [bind, Except.bind, pure, Except.pure, Config.ext_iff]

/-- The first reading at fault is the one reported. -/
theorem fromEnv_error {env : Environment} {message : String} :
    Config.fromEnv env = .error message ↔
      (parse (bindText env) = none ∧ message = notSocketAddress (bindText env)) ∨
        (parse (bindText env) ≠ none ∧
          (required env "CREWLIST_POSTGRES_URL" = .error message ∨
            ((∃ text, required env "CREWLIST_POSTGRES_URL" = .ok text) ∧
              required env "CREWLIST_MONGO_URL" = .error message))) := by
  rw [Config.fromEnv]
  cases parse (bindText env) <;> cases required env "CREWLIST_POSTGRES_URL" <;>
    cases required env "CREWLIST_MONGO_URL" <;>
    simp [bind, Except.bind, pure, Except.pure, eq_comm]

/-- **What comes of an environment.**  The configuration is what is set, the bind address
parsed, and the default one without it; the first variable at fault, in the order bind,
Postgres, Mongo, is the one reported.  Any IPv4 address with its port can be asked for,
and nothing but `CREWLIST_BIND` takes the server off loopback. -/
theorem config_exact (env : Environment) :
    (∀ c, Config.fromEnv env = .ok c ↔
        parse (bindText env) = some c.bind ∧ Sets env "CREWLIST_POSTGRES_URL" c.postgresUrl ∧
          Sets env "CREWLIST_MONGO_URL" c.mongoUrl) ∧
      (∀ message, Config.fromEnv env = .error message ↔
        (parse (bindText env) = none ∧ message = notSocketAddress (bindText env)) ∨
          (parse (bindText env) ≠ none ∧
            (((∀ text, ¬ Sets env "CREWLIST_POSTGRES_URL" text) ∧
                message = "CREWLIST_POSTGRES_URL must be set") ∨
              ((∃ text, Sets env "CREWLIST_POSTGRES_URL" text) ∧
                (∀ text, ¬ Sets env "CREWLIST_MONGO_URL" text) ∧
                message = "CREWLIST_MONGO_URL must be set")))) ∧
      (∀ c ip port, Config.fromEnv env = .ok c →
        Sets env "CREWLIST_BIND" (display ip port) → c.bind = .v4 ip port) ∧
      ∀ c, Config.fromEnv env = .ok c → c.bind.isLoopback = false →
        ∃ text, Sets env "CREWLIST_BIND" text ∧ parse text = some c.bind := by
  refine ⟨fun c => fromEnv_ok, fun message => ?_, fun c ip port ok asked => ?_,
    fun c ok exposed => ?_⟩
  · have postgres : "CREWLIST_POSTGRES_URL" ++ " must be set" =
        "CREWLIST_POSTGRES_URL must be set" := by decide
    have mongo : "CREWLIST_MONGO_URL" ++ " must be set" = "CREWLIST_MONGO_URL must be set" := by
      decide
    rw [fromEnv_error]
    simp only [required_error, required_ok, postgres, mongo]
  · have parsed := (fromEnv_ok.mp ok).1
    rw [bindText_eq.mpr (.inl asked), parse_display, Option.some_inj] at parsed
    exact parsed.symm
  · have parsed := (fromEnv_ok.mp ok).1
    rcases bindText_eq.mp (rfl : bindText env = _) with asked | ⟨-, default⟩
    · exact ⟨_, asked, parsed⟩
    · rw [default, parse_defaultBind, Option.some_inj] at parsed
      rw [← parsed] at exposed
      cases exposed

end CrewList.Server
