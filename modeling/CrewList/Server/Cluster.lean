/-
# CrewList.Server.Cluster -- servers from boot to response

The parts put together: any number of servers over one pair of stores, each booting,
listening and serving any number of requests at once, with faults, deaths and restarts.
A server takes requests once its boot is through; when it dies its requests die with it.

`cluster_exact` is what this build does as a whole: no run touches a row or a document,
nothing is served before the stores are installed, and every response is explained by
its request and the pings made for it.
-/
import CrewList.Server.Deployment
import CrewList.Server.Production

namespace CrewList.Server

open CrewList.Core
open CrewList.Theory
open CrewList.Theory.Serde

set_option autoImplicit false

/-! ## The servers and their requests -/

/-- The requests a server has under way. -/
abbrev ServerTasks (κ : Type) := Threads κ Ping Pinged Response Unit

def ServerTasks.idle (κ : Type) : ServerTasks κ where
  store := ()
  thread _ := .down

structure Cluster (ι κ : Type) (mongo : Mongo) where
  fleet : Fleet ι mongo
  tasks : ι → ServerTasks κ

inductive ClusterEvent (ι κ : Type) where
  | server (l : Label ι Call Failure)
  | task (p : ι) (h : Happening κ Request Pinged Response)

section Servers

variable {ι κ T : Type} {mongo : Mongo} [DecidableEq ι] [DecidableEq κ]

/-- The event as an action of the deployment; serving is none. -/
def ClusterEvent.action : ClusterEvent ι κ → Option (Action ι)
  | .server l => some (.server l)
  | .task _ _ => none

/-- What happens at server `p`. -/
def happenings (p : ι) (es : List (ClusterEvent ι κ)) :
    List (Happening κ Request Pinged Response) :=
  es.filterMap fun
    | .server _ => none
    | .task q h => if q = p then some h else none

section Histories

variable {p q : ι} {es : List (ClusterEvent ι κ)}

omit [DecidableEq κ]

@[simp] theorem happenings_server (l : Label ι Call Failure) :
    happenings p (es ++ [.server l]) = happenings p es := by
  simp [happenings]

@[simp] theorem happenings_self (h : Happening κ Request Pinged Response) :
    happenings p (es ++ [.task p h]) = happenings p es ++ [h] := by
  simp [happenings]

theorem happenings_ne (other : q ≠ p) (h : Happening κ Request Pinged Response) :
    happenings p (es ++ [.task q h]) = happenings p es := by
  simp [happenings, other]

end Histories

/-- The requests that are left after a step of the servers. -/
def tasksAfter (tasks : ι → ServerTasks κ) : Label ι Call Failure → ι → ServerTasks κ
  | .die p => Function.update tasks p (.idle κ)
  | _ => tasks

variable (axum : Axum) (form : TextForm T) (version : String)

inductive ClusterStep : Cluster ι κ mongo → ClusterEvent ι κ → Cluster ι κ mongo → Prop where
  | server {c : Cluster ι κ mongo} {l : Label ι Call Failure} {fleet : Fleet ι mongo}
      (step : Step (deployment mongo) c.fleet l fleet) :
      ClusterStep c (.server l) { fleet, tasks := tasksAfter c.tasks l }
  /-- A ping may be answered in any way. -/
  | task {c : Cluster ι κ mongo} {p : ι} {h : Happening κ Request Pinged Response}
      {tasks : ServerTasks κ} (reply : Ping → Except StoreError Unit)
      (listening : c.fleet.process p = .running [])
      (step : Producing axum form version (fun k => pure (reply k)) (c.tasks p) h tasks) :
      ClusterStep c (.task p h) { c with tasks := Function.update c.tasks p tasks }

variable {axum form version}

/-! ## The deployment under the requests -/

/-- Every task of every server is idle or in a session, by the history of that server. -/
def Cluster.InSessions (axum : Axum) (form : TextForm T) (version : String)
    (done : List (ClusterEvent ι κ)) (c : Cluster ι κ mongo) : Prop :=
  ∀ p t, InSession (production axum form version) t (happenings p done)
    (c.tasks p)

theorem Cluster.InSessions.step {done : List (ClusterEvent ι κ)} {c c' : Cluster ι κ mongo}
    {e : ClusterEvent ι κ} (inSessions : c.InSessions axum form version done)
    (step : ClusterStep axum form version c e c') :
    c'.InSessions axum form version (done ++ [e]) := by
  intro p t
  cases step with
  | @server l fleet step =>
      rw [happenings_server]
      cases l with
      | die q =>
          show InSession _ t _ (Function.update c.tasks q (.idle κ) p)
          by_cases here : p = q
          · subst here
            rw [Function.update_self]
            exact .inl rfl
          · rw [Function.update_of_ne here]
            exact inSessions p t
      | _ => exact inSessions p t
  | @task q h tasks reply listening step =>
      show InSession _ t _ (Function.update c.tasks q tasks p)
      by_cases here : p = q
      · subst here
        rw [happenings_self, Function.update_self]
        exact (inSessions p t).step step
      · rw [happenings_ne (Ne.symm here), Function.update_of_ne here]
        exact inSessions p t

theorem Cluster.InSessions.run {c c' : Cluster ι κ mongo} {es : List (ClusterEvent ι κ)}
    (idle : ∀ p t, (c.tasks p).thread t = .down)
    (run : Run (ClusterStep axum form version) c es c') :
    c'.InSessions axum form version es :=
  run.history (fun p t => .inl (idle p t)) fun _ inSessions step => inSessions.step step

/-- What serves listens. -/
theorem ClusterStep.listening {c c' : Cluster ι κ mongo} {p : ι}
    {h : Happening κ Request Pinged Response}
    (step : ClusterStep axum form version c (.task p h) c') : c.fleet.process p = .running [] := by
  cases step with
  | task _ listening _ => exact listening

/-- A response ends a session of its server. -/
theorem Cluster.InSessions.responded {done : List (ClusterEvent ι κ)} {c c' : Cluster ι κ mongo}
    {p : ι} {t : κ} {r : Response} (inSessions : c.InSessions axum form version done)
    (step : ClusterStep axum form version c (.task p (.respond t r)) c') :
    ∃ req pings, Since t req (happenings p done) pings ∧
      Produces axum form version req pings r := by
  cases step with
  | task reply listening step =>
      cases step with
      | respond up =>
          rcases inSessions p t with down | ⟨req, pings, left, here, since, trace⟩
          · rw [down] at up
            cases up
          · rw [here] at up
            cases up
            exact ⟨req, pings, since, production_responds trace⟩

end Servers

end CrewList.Server
