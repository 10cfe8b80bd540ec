/-
# CrewList.Server.Network -- which servers can come to serve

Faults apart, `Call.run` lets a server connect and bind whatever its configuration says:
enough for what must never happen, since a fault may come at any call, and too much for
what can.  Here a call that meets no fault is one the network allows (`NetworkStep`): the
URLs lead to the stores of the deployment, and the address is one the server's host has
and no other server listens at.

`fleet_converges`: every server that serves is placed so (`Placed`), and a stopped one can
come to serve alone exactly if it would be, and no two documents have a `task_id` in
common.
-/
import CrewList.Server.Deployment
import CrewList.Server.Main

namespace CrewList.Server

open CrewList.Core
open CrewList.Theory
open CrewList.Theory.Net
open Main (Report Serves setup main_eq setup_ok)

set_option autoImplicit false

/-! ## The network -/

/-- What lies between the servers, the stores of the deployment and each other. -/
structure Network (ι : Type) where
  /-- From the server the URL leads to the Postgres of the deployment. -/
  postgres : ι → String → Prop
  /-- From the server the URL leads to its MongoDB. -/
  mongo : ι → String → Prop
  /-- The server's host has the address, and nothing but these servers listens there. -/
  bindable : ι → SocketAddr → Prop
  /-- The two servers cannot listen at the two addresses at a time. -/
  clash : ι × SocketAddr → ι × SocketAddr → Prop
  clash_symm : ∀ {a b : ι × SocketAddr}, clash a b → clash b a

section Networks

variable {ι : Type} {mongo : Mongo}

/-- What a call needs of the network, under the server's configuration. -/
def Network.Provides (net : Network ι) (p : ι) (config : Config) : Call → Prop
  | .connectPostgres => net.postgres p config.postgresUrl
  | .connectMongo => net.mongo p config.mongoUrl
  | .bind => net.bindable p config.bind
  | _ => True

abbrev StoredMains (ι : Type) (mongo : Mongo) :=
  Threads ι Call (Fails Failure) (Except Report Unit) (Database mongo)

section Steps

variable [DecidableEq ι] (net : Network ι) (text : Failure → String) (env : ι → Environment)

/-- No other server listens where this one would. -/
def Vacant (w : StoredMains ι mongo) (p : ι) (config : Config) : Prop :=
  ∀ q config', q ≠ p → Serves w q → Config.fromEnv (env q) = .ok config' →
    ¬ net.clash (p, config.bind) (q, config'.bind)

/-- A call without a fault needs the network. -/
def Allowed (w : StoredMains ι mongo) : ProgramEvent ι Call Failure Report → Prop
  | .step (.call p k .none _) => ∀ config, Config.fromEnv (env p) = .ok config →
      net.Provides p config k ∧ (k = .bind → Vacant net env w p config)
  | _ => True

/-- A step of the servers' programs over the stored data that the network allows. -/
def NetworkStep (w : StoredMains ι mongo) (e : ProgramEvent ι Call Failure Report)
    (w' : StoredMains ι mongo) : Prop :=
  ProgramStep (deployment mongo) (fun p => (Main.main text (env p)).run) w e w' ∧
    Allowed net env w e

/-- The server's configuration is complete, and it reaches the stores and has its address to
itself. -/
structure Placed (w : StoredMains ι mongo) (p : ι) (config : Config) : Prop where
  complete : Config.fromEnv (env p) = .ok config
  postgres : net.postgres p config.postgresUrl
  mongo : net.mongo p config.mongoUrl
  bindable : net.bindable p config.bind
  vacant : Vacant net env w p config

/-- The event is a step of the server's boot, without a fault, or the exit of one that has
failed. -/
def Alone (p : ι) : ProgramEvent ι Call Failure Report → Prop
  | .step l => l = .boot p ∨ ∃ k reply, l = .call p k .none reply
  | .exit _ _ => True

end Steps

/-! ## One step -/

section Invariants

variable [DecidableEq ι] {net : Network ι} {text : Failure → String} {env : ι → Environment}
  {w w' : StoredMains ι mongo} {e : ProgramEvent ι Call Failure Report} {p : ι}

/-- A step of the programs, of whatever the network. -/
abbrev StoredStep (text : Failure → String) (env : ι → Environment) :=
  ProgramStep (ι := ι) (deployment mongo) fun p => (Main.main text (env p)).run

/-- Every server follows the boot sequence, with its facts in the stored data. -/
abbrev FollowsAll (text : Failure → String) (env : ι → Environment) (w : StoredMains ι mongo) :
    Prop :=
  ∀ p, Follows (deployment mongo) (fun p => setup text (env p)) (fun k d => k.fact d.schema) p w

theorem storedStep_eq :
    StoredStep text env =
      ProgramStep (deployment mongo) (mainOf (deployment mongo) fun p => setup text (env p)) := by
  rw [StoredStep]
  congr 1
  funext p
  exact main_eq text env p

theorem FollowsAll.step (follows : FollowsAll text env w) (step : StoredStep text env w e w') :
    FollowsAll text env w' := by
  rw [storedStep_eq] at step
  exact fun p => (follows p).step Database.deployment_establishes step

omit [DecidableEq ι] in
/-- Who serves has its configuration, and everything is installed. -/
theorem FollowsAll.serves (follows : FollowsAll text env w) (serves : Serves w p) :
    (∃ config, Config.fromEnv (env p) = .ok config) ∧ Installed w.store.schema := by
  obtain ⟨⟨reports, set⟩, facts⟩ := (follows p).finished serves
  obtain ⟨config, found, -⟩ := setup_ok text set
  exact ⟨⟨config, found⟩, installed_iff_facts.mpr facts⟩

/-- Who serves after a step served before, or has bound its listener by it. -/
theorem FollowsAll.serves_step (follows : FollowsAll text env w)
    (step : StoredStep text env w e w') (serves : Serves w' p) :
    Serves w p ∨ ∃ reply, e = .step (.call p .bind .none reply) := by
  have after := follows.step step
  rw [storedStep_eq] at step
  have seen := Follows.view_step follows step
  rw [Serves, (after p).finished_iff] at serves
  rw [Serves, (follows p).finished_iff]
  cases label : e.label fun p => setup text (env p) with
  | none =>
      rw [label] at seen
      rw [show w'.view = w.view from seen] at serves
      exact .inl serves
  | some l =>
      rw [label] at seen
      have nonempty : (deployment mongo).calls ≠ [] := List.cons_ne_nil _ _
      rcases Step.finished seen nonempty serves with before | ⟨k, fault, last, rfl, passes⟩
      · exact .inl before
      · obtain ⟨done, split⟩ := (follows p).rest last
        have bind : k = .bind := by
          have final : boot.calls.getLast? = some k := by
            rw [show boot.calls = done ++ [k] from split, List.getLast?_concat]
          exact (Option.some.inj final).symm
        subst bind
        rw [ProgramEvent.eq_of_label_call label]
        -- a bind that its caller goes on after has met no fault
        cases fault with
        | none => exact .inr ⟨_, rfl⟩
        | before e => cases passes
        | after e => cases passes

/-- The boot of one server leaves the others as they are, those apart that have failed. -/
theorem thread_kept {q : ι} (step : StoredStep text env w e w') (alone : Alone p e) (other : q ≠ p)
    (unfailed : ∀ r, w.thread q ≠ .running (.done (.error r))) : w'.thread q = w.thread q := by
  cases step with
  | boot down =>
      rcases alone with same | ⟨k, reply, same⟩ <;> cases same
      exact Threads.set_thread_ne other _
  | call fault up =>
      rcases alone with same | ⟨k, reply, same⟩ <;> cases same
      exact Threads.set_thread_ne other _
  | die up alive => rcases alone with same | ⟨k, reply, same⟩ <;> cases same
  | @exit r report failed =>
      have different : q ≠ r := by
        rintro rfl
        exact unfailed report failed
      exact Threads.set_thread_ne different _

theorem thread_kept_run {q : ι} {es : List (ProgramEvent ι Call Failure Report)}
    (run : Run (StoredStep text env) w es w') (alone : ∀ e ∈ es, Alone p e) (other : q ≠ p)
    (unfailed : ∀ r, w.thread q ≠ .running (.done (.error r))) : w'.thread q = w.thread q := by
  refine run.invariant_on (P := fun u => u.thread q = w.thread q) (Q := Alone p) ?_ rfl alone
  intro u e u' same alone step
  exact (thread_kept step alone other (same ▸ unfailed)).trans same

theorem NetworkStep.stored {ls : List (ProgramEvent ι Call Failure Report)}
    (run : Run (NetworkStep net text env) w ls w') :
    Run (StoredStep text env) w ls w' :=
  run.refine (P := fun _ => True) (Q := fun _ => True) (fun _ _ step => ⟨trivial, step.1⟩) trivial
    fun _ _ => trivial

/-! ## Whole runs -/

/-- **What is reached stays reached.**  A server has had from the network whatever the calls
behind it need. -/
theorem provided_run {ls : List (ProgramEvent ι Call Failure Report)}
    (down : ∀ p, w.thread p = .down)
    (run : Run (NetworkStep net text env) w ls w') (p : ι) :
    Progress (deployment mongo)
      (fun k _ => ∀ config, Config.fromEnv (env p) = .ok config → net.Provides p config k) p
      w'.view := by
  have programs := NetworkStep.stored run
  rw [storedStep_eq] at programs
  have seen := (Follows.run Database.deployment_establishes down programs).2
  -- a call that meets a fault is gone on after only if it is `create`, which needs nothing
  have establishes : Establishes (deployment mongo)
      (fun k fault => fault = .none → ∀ config, Config.fromEnv (env p) = .ok config →
        net.Provides p config k)
      fun k _ => ∀ config, Config.fromEnv (env p) = .ok config → net.Provides p config k := {
    passed := by
      intro k fault d provides passes config complete
      cases fault with
      | none => exact provides rfl config complete
      | before e =>
          obtain ⟨rfl, -⟩ := passes_iff.mp passes e rfl
          trivial
      | after e =>
          obtain ⟨rfl, -⟩ := passes_iff.mp passes e rfl
          trivial
    stable := fun _ _ _ => id }
  have idle : w.view.process p = .down := by
    show (w.thread p).process = _
    rw [down p]
  refine Progress.run establishes seen (.down idle) ?_
  rintro l member k fault reply rfl rfl config complete
  obtain ⟨e, happened, label⟩ := List.mem_filterMap.mp member
  rw [ProgramEvent.eq_of_label_call label] at happened
  have allowed : ∀ e ∈ ls, ∀ k reply, e = .step (.call p k .none reply) →
      net.Provides p config k := by
    refine run.labels ?_
    rintro s e t ⟨-, allowed⟩ k reply rfl
    exact (allowed config complete).1
  exact allowed _ happened k reply rfl

variable (net env) in
/-- No two servers that serve clash. -/
def Disjoint (w : StoredMains ι mongo) : Prop :=
  ∀ p q config config', p ≠ q → Serves w p → Serves w q →
    Config.fromEnv (env p) = .ok config → Config.fromEnv (env q) = .ok config' →
      ¬ net.clash (p, config.bind) (q, config'.bind)

/-- **One step.**  A listener is bound where none of another server is. -/
theorem Disjoint.step (disjoint : Disjoint net env w) (follows : FollowsAll text env w)
    (step : NetworkStep net text env w e w') : Disjoint net env w' := by
  obtain ⟨step, allowed⟩ := step
  intro p q config config' different serves serves' complete complete'
  rcases follows.serves_step step serves with before | ⟨reply, rfl⟩
  · rcases follows.serves_step step serves' with before' | ⟨reply', rfl⟩
    · exact disjoint p q config config' different before before' complete complete'
    · intro clash
      exact (allowed config' complete').2 rfl p config different before complete
        (net.clash_symm clash)
  · rcases follows.serves_step step serves' with before' | ⟨reply', same⟩
    · exact (allowed config complete).2 rfl q config' different.symm before' complete'
    · cases same
      exact absurd rfl different

theorem disjoint_run {ls : List (ProgramEvent ι Call Failure Report)}
    (down : ∀ p, w.thread p = .down)
    (run : Run (NetworkStep net text env) w ls w') :
    FollowsAll text env w' ∧ Disjoint net env w' := by
  refine run.invariant (P := fun w => FollowsAll text env w ∧ Disjoint net env w) ?_ ⟨?_, ?_⟩
  · rintro s e t ⟨follows, disjoint⟩ step
    exact ⟨follows.step step.1, disjoint.step follows step⟩
  · exact fun p => .inl (down p)
  · intro p q config config' _ serves
    rw [Serves, down p] at serves
    cases serves

/-- Who serves is placed. -/
theorem placed_of_serves {ls : List (ProgramEvent ι Call Failure Report)}
    (down : ∀ p, w.thread p = .down)
    (run : Run (NetworkStep net text env) w ls w') (serves : Serves w' p) :
    ∃ config, Placed net env w' p config := by
  obtain ⟨follows, disjoint⟩ := disjoint_run down run
  obtain ⟨config, complete⟩ := (follows.serves serves).1
  have provided : ∀ k ∈ boot.calls, net.Provides p config k := fun k member =>
    (provided_run down run p).finished ((follows p).finished_iff.mp serves) member config complete
  exact ⟨config, {
    complete := complete
    postgres := provided .connectPostgres (by decide)
    mongo := provided .connectMongo (by decide)
    bindable := provided .bind (by decide)
    vacant := fun q config' other serving complete' =>
      disjoint p q config config' other.symm serves serving complete complete' }⟩

/-- No step of the servers touches a document. -/
theorem storedStep_documents (follows : FollowsAll text env w)
    (step : StoredStep text env w e w') : w'.store.documents = w.store.documents := by
  rw [storedStep_eq] at step
  have seen := Follows.view_step follows step
  cases label : e.label fun p => setup text (env p) with
  | none =>
      rw [label] at seen
      exact congrArg (fun v => v.store.documents) (show w'.view = w.view from seen)
  | some l =>
      rw [label] at seen
      exact (Database.step_data seen).2

/-! ## Who can come to serve -/

/-- **Where it is placed, a server boots alone**, if no documents are in the way. -/
theorem boots_alone (follows : FollowsAll text env w) {config : Config} (stopped : w.thread p = .down)
    (placed : Placed net env w p config) (apart : mongo.Apart "task_id" w.store.documents) :
    ∃ es w', Run (NetworkStep net text env) w es w' ∧ Serves w' p ∧ ∀ e ∈ es, Alone p e := by
  have idle : (w.view.map Database.schema).process p = .down := by
    show (w.thread p).process = _
    rw [stopped]
  obtain ⟨ls, v, alone, finished, own⟩ := exists_solo_run boot_clean idle
  have only : ∀ l ∈ Label.boot p :: ls, l = .boot p ∨ ∃ k reply, l = .call p k .none reply :=
    List.forall_mem_cons.mpr ⟨.inl rfl, fun l member => .inr (own l member)⟩
  have ready : ∀ q, Label.boot q ∈ Label.boot p :: ls → ∃ report, setup text (env q) = .ok report := by
    intro q member
    rcases only _ member with same | ⟨k, reply, other⟩
    · cases same
      rw [setup, placed.complete]
      exact ⟨_, rfl⟩
    · cases other
  obtain ⟨u, stored, rfl, -⟩ := Database.deployment_refines.lift (w := w.view) apart alone
  obtain ⟨es, w', programs, labels, rfl, follows'⟩ :=
    Follows.lift Database.deployment_establishes follows ready stored
  have events : ∀ e ∈ es, Alone p e := by
    intro e member
    cases e with
    | exit q r => trivial
    | step l => exact only l (labels ▸ List.mem_filterMap.mpr ⟨_, member, rfl⟩)
  refine ⟨es, w', ?_, (follows' p).finished_iff.mpr finished, events⟩
  rw [← storedStep_eq] at programs
  -- the others that serve on the way have served from the start
  refine programs.refine (Q := Alone p)
    (P := fun u => FollowsAll text env u ∧ ∀ q, q ≠ p → Serves u q → Serves w q) ?_
    ⟨follows, fun _ _ => id⟩ events
  rintro u e u' ⟨here, others⟩ alone step
  have next : ∀ q, q ≠ p → Serves u' q → Serves w q := by
    intro q other serves
    rcases here.serves_step step serves with before | ⟨reply, rfl⟩
    · exact others q other before
    · rcases alone with same | ⟨k, reply', same⟩
      · cases same
      · cases same
        exact absurd rfl other
  refine ⟨⟨here.step step, next⟩, step, ?_⟩
  cases e with
  | exit q r => trivial
  | step l =>
      rcases alone with rfl | ⟨k, reply, rfl⟩
      · trivial
      · intro config' complete
        cases placed.complete.symm.trans complete
        refine ⟨?_, fun _ q config' other serves =>
          placed.vacant q config' other (others q other serves)⟩
        cases k with
        | connectPostgres => exact placed.postgres
        | connectMongo => exact placed.mongo
        | bind => exact placed.bindable
        | _ => trivial

/-- **Which servers serve, and which can.**  In every run of any number of servers over one
pair of stores, each with its environment, with faults, deaths and restarts, where a call
without a fault is one the network allows: every server that serves is placed, and
everything is installed; and a stopped one can come to serve alone, from wherever the
others are, if and only if it is placed and no two documents have a `task_id` in common. -/
theorem fleet_converges (net : Network ι) (text : Failure → String) (env : ι → Environment)
    (w w' : StoredMains ι mongo) (ls : List (ProgramEvent ι Call Failure Report))
    (down : ∀ p, w.thread p = .down) (run : Run (NetworkStep net text env) w ls w') (p : ι) :
    (Serves w' p → (∃ config, Placed net env w' p config) ∧ Installed w'.store.schema) ∧
      (w'.thread p = .down →
        ((∃ es w'', Run (NetworkStep net text env) w' es w'' ∧ Serves w'' p ∧
            ∀ e ∈ es, Alone p e) ↔
          (∃ config, Placed net env w' p config) ∧
            mongo.Apart "task_id" w'.store.documents)) := by
  have follows := (disjoint_run down run).1
  refine ⟨fun serves => ⟨placed_of_serves down run serves, (follows.serves serves).2⟩,
    fun stopped => ⟨?_, ?_⟩⟩
  · rintro ⟨es, w'', onward, serves, alone⟩
    have whole := run.append onward
    have final := (disjoint_run down whole).1
    obtain ⟨config, placed⟩ := placed_of_serves down whole serves
    -- whoever served at first still does
    have still : ∀ q, q ≠ p → Serves w' q → Serves w'' q := by
      intro q other serving
      refine (thread_kept_run (NetworkStep.stored onward) alone other fun r failed => ?_).trans serving
      cases serving.symm.trans failed
    have vacant : Vacant net env w' p config := fun q config' other serving =>
      placed.vacant q config' other (still q other serving)
    refine ⟨⟨config, { placed with vacant }⟩, ?_⟩
    have same : FollowsAll text env w'' ∧ w''.store.documents = w'.store.documents := by
      refine onward.invariant (P := fun u => FollowsAll text env u ∧
        u.store.documents = w'.store.documents) ?_ ⟨follows, rfl⟩
      rintro u e u' ⟨here, same⟩ ⟨step, -⟩
      exact ⟨here.step step, (storedStep_documents here step).trans same⟩
    rw [← same.2]
    exact Database.installed_apart (final.serves serves).2
  · rintro ⟨⟨config, placed⟩, apart⟩
    exact boots_alone follows stopped placed apart

end Invariants

/-! ## Three servers on one host -/

/-- Both URLs, and an address of its own for the second server. -/
def hostEnvironment (p : Fin 3) : Environment := fun key =>
  if p = 1 ∧ key = "CREWLIST_BIND" then some (.unicode "127.0.0.1:8788")
  else Main.localEnvironment key

def hostConfig (p : Fin 3) : Config where
  bind := .v4 ⟨127, 0, 0, 1⟩ (if p = 1 then 8788 else 8787)
  postgresUrl := "postgres://localhost/crewlist"
  mongoUrl := "mongodb://localhost"

/-- The stores are local, and an address of loopback can be listened at by one server. -/
def localhost : Network (Fin 3) where
  postgres _ url := url = "postgres://localhost/crewlist"
  mongo _ url := url = "mongodb://localhost"
  bindable _ addr := addr.isLoopback = true
  clash a b := a.2 = b.2
  clash_symm := Eq.symm

theorem hostEnvironment_complete (p : Fin 3) :
    Config.fromEnv (hostEnvironment p) = .ok (hostConfig p) := by
  refine fromEnv_ok.mpr ⟨?_, ?_, ?_⟩
  · fin_cases p <;> decide
  · exact if_neg fun own => absurd own.2 (by decide)
  · exact if_neg fun own => absurd own.2 (by decide)

/-- Three stopped servers over what an earlier build left. -/
def stoppedServers : StoredMains (Fin 3) keyedById where
  store := olderServers.store
  thread _ := .down

/-- The first comes to serve; then the second can, at its own address, and the third cannot. -/
theorem second_address_serves :
    ∃ ls w, Run (NetworkStep localhost (fun _ => "") hostEnvironment) stoppedServers ls w ∧
      Serves w 0 ∧ w.store.schema = installed ∧
      (∃ es w', Run (NetworkStep localhost (fun _ => "") hostEnvironment) w es w' ∧ Serves w' 1 ∧
        ∀ e ∈ es, Alone 1 e) ∧
      ¬ ∃ es w', Run (NetworkStep localhost (fun _ => "") hostEnvironment) w es w' ∧ Serves w' 2 ∧
        ∀ e ∈ es, Alone 2 e := by
  have placed : ∀ (w : StoredMains (Fin 3) keyedById) p,
      (∀ q, q ≠ p → Serves w q → (hostConfig p).bind ≠ (hostConfig q).bind) →
        Placed localhost hostEnvironment w p (hostConfig p) := by
    intro w p apart
    refine ⟨hostEnvironment_complete p, rfl, rfl, rfl, fun q config' other serves complete => ?_⟩
    cases (hostEnvironment_complete q).symm.trans complete
    exact apart q other serves
  have start := (fleet_converges localhost (fun _ => "") hostEnvironment stoppedServers
    stoppedServers [] (fun _ => rfl) (.nil _) 0).2 rfl
  have documents : keyedById.Apart "task_id" stoppedServers.store.documents :=
    List.pairwise_singleton _ _
  obtain ⟨ls, w, run, serves, alone⟩ := start.mpr ⟨⟨_, placed _ 0 fun q _ up => by cases up⟩, documents⟩
  have down : ∀ q, q ≠ 0 → w.thread q = .down := fun q other =>
    thread_kept_run (NetworkStep.stored run) alone other fun r failed => by cases failed
  have fleet := fleet_converges localhost (fun _ => "") hostEnvironment stoppedServers w ls
    (fun _ => rfl) run
  obtain ⟨⟨config, here⟩, everything⟩ := (fleet 0).1 serves
  refine ⟨ls, w, run, serves, installed_iff.mp everything, ?_, ?_⟩
  · refine ((fleet 1).2 (down 1 (by decide))).mpr ⟨⟨_, placed w 1 fun q other up => ?_⟩,
      Database.installed_apart everything⟩
    fin_cases q
    · decide
    · exact absurd rfl other
    · exact absurd (up.symm.trans (down 2 (by decide))) (by simp)
  · intro third
    obtain ⟨⟨config', there⟩, -⟩ := ((fleet 2).2 (down 2 (by decide))).mp third
    cases (hostEnvironment_complete 2).symm.trans there.complete
    exact there.vacant 0 (hostConfig 0) (by decide) serves (hostEnvironment_complete 0) rfl

end Networks

end CrewList.Server
