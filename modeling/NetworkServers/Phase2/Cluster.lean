import Mathlib.Logic.Function.Basic
import NetworkServers.Phase2.ChatHistory

/-!
# Several Workers

`src/phase2/src/index.ts` forks several workers on the same data files. A worker runs one
stretch at a time, operation by operation; a `get_user` or a `get_chat` reads a whole file,
and a `set_user` or an `add_chat` reads a whole file and later writes one. Between two
operations of a worker any number of operations of the others may run, and a worker takes
up another stretch only when it has no current one.

A single worker that is left alone does what `Process` does in one step, so every state of
one process is a state of a cluster.
-/

namespace NetworkServers.Phase2

open NetworkServers.Js NetworkServers.Runs

/-! ## Workers -/

/-- Where a stretch comes from: a request, or the answer of the chatbot. -/
inductive Origin where
  | handler
  | gptReply
deriving DecidableEq, Repr

/-- What is left of a stretch. -/
inductive Remaining where
  /-- The next operation has not begun. -/
  | prog (k : Prog Next)
  /-- A `set_user` has retrieved the user table. -/
  | setUser (users : UserTable) (id : Option JsString) (user : UserPatch) (k : Prog Next)
  /-- An `add_chat` has retrieved the chat history. -/
  | addChat (chats : List ChatData) (chat : ChatData) (k : Prog Next)

/-- The stretch that a worker is in the middle of. -/
structure Stretch where
  origin : Origin
  remaining : Remaining

/-- A worker: its current stretch, and the handlers that wait. -/
structure Worker where
  current : Option Stretch
  waiting : List Await

/-- All workers with the data files. `appended` lists the completed `add_chat` calls with
their origins; it is not part of the program. -/
structure Cluster (ω : Type) where
  store : Store
  workers : ω → Worker
  appended : List (Origin × ChatData)

variable {ω : Type}

/-- All workers have been forked, on the given data files. -/
def Cluster.initial (s : Store) : Cluster ω :=
  { store := s, workers := fun _ => { current := none, waiting := [] }, appended := [] }

/-- The program in which `gpt_reply` adds what it has got, if the `content` of the answer is a
text. -/
def gptReply (message : JsString) (now : ℕ) : Prog Next := do
  chatAdd (gptRecord message now)
  return .done

/-- What happens next, and at which worker. -/
inductive ClusterLabel (ω : Type) where
  /-- A request comes in. -/
  | request (w : ω) (text : JsString)
  /-- A handler that has waited goes on. -/
  | resume (w : ω) (index : ℕ)
  /-- The chatbot has answered. -/
  | gptReply (w : ω) (message : JsString) (now : ℕ)
  /-- The current stretch does its next operation. -/
  | advance (w : ω) (env : Env)

/-! ## Steps -/

/-- The waiting handlers after a stretch. -/
def Next.awaits : Next → List Await
  | .await a => [a]
  | .done => []

section Steps

variable [DecidableEq ω]

/-- Replace a worker. -/
def Cluster.setWorker (s : Cluster ω) (w : ω) (worker : Worker) : Cluster ω :=
  { s with workers := Function.update s.workers w worker }

/-- A worker without a current stretch takes one up. -/
def Cluster.take (s : Cluster ω) (w : ω) (origin : Origin) (prog : Prog Next)
    (waiting : List Await) : Option (Cluster ω) :=
  match (s.workers w).current with
  | none =>
    some (s.setWorker w
      { current := some { origin := origin, remaining := .prog prog }, waiting := waiting })
  | some _ => none

/-- A worker has done an operation of its current stretch. -/
def Cluster.continue (s : Cluster ω) (w : ω) (origin : Origin) (remaining : Remaining) :
    Cluster ω :=
  s.setWorker w { s.workers w with
    current := some { origin := origin, remaining := remaining } }

/-- The next operation of a stretch. -/
def Cluster.advance (s : Cluster ω) (w : ω) (env : Env) (origin : Origin) :
    Remaining → Cluster ω
  | .prog (.pure next) =>
    s.setWorker w { current := none, waiting := (s.workers w).waiting ++ next.awaits }
  | .prog .throw => s.setWorker w { s.workers w with current := none }
  | .prog (.getUser id k) => s.continue w origin (.prog (k (getUser s.store.users id)))
  | .prog (.setUser id user k) => s.continue w origin (.setUser s.store.users id user k)
  | .setUser users id user k =>
    { s with store := { s.store with users := setUser users id user } }.continue w origin (.prog k)
  | .prog (.getChat k) => s.continue w origin (.prog (k (getChat s.store.chats)))
  | .prog (.addChat chat k) => s.continue w origin (.addChat s.store.chats chat k)
  | .addChat chats chat k =>
    { s with
      store := { s.store with chats := addChat chats chat }
      appended := s.appended ++ [(origin, chat)] }.continue w origin (.prog k)
  | .prog (.randomUUID k) => s.continue w origin (.prog (k env.uuid))
  | .prog (.now k) => s.continue w origin (.prog (k env.now))
  | .prog (.call _ k) => s.continue w origin (.prog k)
  | .prog (.startGpt k) => s.continue w origin (.prog k)

/-- One step of the cluster. -/
def Cluster.step (p : Platform) (s : Cluster ω) : ClusterLabel ω → Option (Cluster ω)
  | .request w text => s.take w .handler (handle p text) (s.workers w).waiting
  | .resume w index => do
    let a ← (s.workers w).waiting[index]?
    s.take w .handler (a.resume p) ((s.workers w).waiting.eraseIdx index)
  | .gptReply w message now => s.take w .gptReply (gptReply message now) (s.workers w).waiting
  | .advance w env => do
    let stretch ← (s.workers w).current
    return s.advance w env stretch.origin stretch.remaining

/-- The steps as a relation. -/
def ClusterSteps (p : Platform) (s : Cluster ω) (l : ClusterLabel ω) (t : Cluster ω) : Prop :=
  s.step p l = some t

/-- **Runs** of a cluster from empty data files. -/
abbrev ClusterReaches (p : Platform) (ls : List (ClusterLabel ω)) (s : Cluster ω) : Prop :=
  Run (ClusterSteps p) (Cluster.initial Store.initial) ls s

/-! ## A worker that is left alone -/

section Alone

variable {p : Platform} {w : ω} {worker : Worker} {origin : Origin} {remaining : Remaining}

@[simp] theorem setWorker_store (s : Cluster ω) : (s.setWorker w worker).store = s.store := rfl

@[simp] theorem setWorker_appended (s : Cluster ω) :
    (s.setWorker w worker).appended = s.appended := rfl

@[simp] theorem setWorker_self (s : Cluster ω) : (s.setWorker w worker).workers w = worker :=
  Function.update_self ..

@[simp] theorem setWorker_setWorker (s : Cluster ω) (worker' : Worker) :
    (s.setWorker w worker).setWorker w worker' = s.setWorker w worker' := by
  simp [Cluster.setWorker]

/-- One operation of the current stretch. -/
theorem step_advance (s : Cluster ω) (env : Env)
    (h : (s.workers w).current = some { origin := origin, remaining := remaining }) :
    ClusterSteps p s (.advance w env) (s.advance w env origin remaining) := by
  simp [ClusterSteps, Cluster.step, h]

/-- A worker ends its current stretch alone, with this outcome. -/
def EndsAlone (p : Platform) (w : ω) (worker : Worker) (s : Cluster ω) (o : Outcome Next) : Prop :=
  ∃ ls t, Run (ClusterSteps p) s ls t ∧ t.store = o.store ∧
    t.workers w = { current := none
                    waiting := worker.waiting ++ (o.result.map Next.awaits).getD [] }

/-- The next operation of the stretch, and then the others. -/
theorem EndsAlone.of_advance {s : Cluster ω} {o : Outcome Next} (env : Env)
    (hcurrent : s.workers w = { worker with
      current := some { origin := origin, remaining := remaining } })
    (h : EndsAlone p w worker (s.advance w env origin remaining) o) : EndsAlone p w worker s o := by
  obtain ⟨ls, t, hrun, hends⟩ := h
  have hstep := Run.single (step_advance (p := p) s env (by rw [hcurrent]))
  exact ⟨_, t, hstep.append hrun, hends⟩

theorem continue_workers {s : Cluster ω} (remaining' : Remaining)
    (hcurrent : s.workers w = { worker with
      current := some { origin := origin, remaining := remaining } }) :
    (s.continue w origin remaining').workers w = { worker with
      current := some { origin := origin, remaining := remaining' } } := by
  simp [Cluster.continue, hcurrent]

/-- A worker that is left alone in the middle of a stretch ends it as one process does. -/
theorem endsAlone (worker : Worker) (env : Env) (prog : Prog Next) (s : Cluster ω)
    (h : s.workers w = { worker with
      current := some { origin := origin, remaining := .prog prog } }) :
    EndsAlone p w worker s (prog.run env s.store) := by
  apply EndsAlone.of_advance env h
  induction prog generalizing s with
  | pure next | throw =>
    refine ⟨_, _, Run.nil, rfl, ?_⟩
    simp [Cluster.advance, h, Prog.run]
  -- the stretch goes on with what has been read
  | getUser id k ih =>
    have hnext := continue_workers (.prog (k (Phase2.getUser s.store.users id))) h
    exact .of_advance env hnext (ih _ _ hnext)
  | getChat k ih =>
    have hnext := continue_workers (.prog (k (Phase2.getChat s.store.chats))) h
    exact .of_advance env hnext (ih _ _ hnext)
  | randomUUID k ih =>
    have hnext := continue_workers (.prog (k env.uuid)) h
    exact .of_advance env hnext (ih _ _ hnext)
  | now k ih =>
    have hnext := continue_workers (.prog (k env.now)) h
    exact .of_advance env hnext (ih _ _ hnext)
  | call c k ih | startGpt k ih =>
    have hnext := continue_workers (.prog k) h
    exact .of_advance env hnext (ih _ hnext)
  | setUser id user k ih =>
    -- the file is read and then written, and no other worker comes in between
    have hwrite := continue_workers (.setUser s.store.users id user k) h
    have hnext := continue_workers (s := { s.continue w origin (.setUser s.store.users id user k) with
      store := { s.store with users := Phase2.setUser s.store.users id user } }) (.prog k) hwrite
    exact .of_advance env hwrite (.of_advance env hnext (ih _ hnext))
  | addChat chat k ih =>
    have hwrite := continue_workers (.addChat s.store.chats chat k) h
    have hnext := continue_workers (s := { s.continue w origin (.addChat s.store.chats chat k) with
      store := { s.store with chats := Phase2.addChat s.store.chats chat }
      appended := s.appended ++ [(origin, chat)] }) (.prog k) hwrite
    exact .of_advance env hwrite (.of_advance env hnext (ih _ hnext))

/-- An idle worker takes up a stretch. -/
theorem take_idle {s : Cluster ω} (hidle : (s.workers w).current = none) (origin : Origin)
    (prog : Prog Next) (waiting : List Await) :
    s.take w origin prog waiting = some (s.setWorker w
      { current := some { origin := origin, remaining := .prog prog }
        waiting := waiting }) := by
  simp [Cluster.take, hidle]

/-- A worker stands for a process with these data files and waiting handlers. -/
def StandsFor (t : Cluster ω) (w : ω) (store : Store) (pending : List Pending) : Prop :=
  t.store = store ∧ t.workers w = { current := none, waiting := pending.map Pending.await }

theorem map_await_waiting (request : ℕ) (result : Option Next) :
    (Next.waiting request result).map Pending.await = (result.map Next.awaits).getD [] := by
  rcases result with _ | _ | a <;> rfl

/-- A stretch that a worker takes up and ends alone. -/
theorem StandsFor.stretch {t : Cluster ω} {store : Store} {pending pending' : List Pending}
    {label : ClusterLabel ω} {prog : Prog Next} (h : StandsFor t w store pending)
    (hlabel : t.step p label = t.take w origin prog (pending'.map Pending.await)) (env : Env)
    (request : ℕ) : ∃ ls u, Run (ClusterSteps p) t ls u ∧
      StandsFor u w (prog.run env store).store
        (pending' ++ Next.waiting request (prog.run env store).result) := by
  obtain ⟨hstore, hworker⟩ := h
  rw [take_idle (by rw [hworker])] at hlabel
  obtain ⟨ls, u, hrun, hu, hidle⟩ := endsAlone (p := p) (w := w)
    { current := none, waiting := pending'.map Pending.await } env prog _ (setWorker_self t)
  rw [setWorker_store, hstore] at hu hidle
  refine ⟨_, u, (Run.single hlabel).append hrun, hu, ?_⟩
  rw [hidle, List.map_append, map_await_waiting]

/-- **One process is a worker of a cluster**: what a process reaches, with the chatbot, is
reached by a worker while the others do nothing. -/
theorem cluster_of_process (w : ω) {ls : List ChatEvent} {s : Process}
    (hrun : ChatReaches p ls s) : ∃ (ls' : List (ClusterLabel ω)) (t : Cluster ω),
      ClusterReaches p ls' t ∧ StandsFor t w s.store s.pending := by
  -- every event of the process is one label of the worker, and the stretch it starts
  induction hrun with
  | nil => exact ⟨[], _, Run.nil, rfl, rfl⟩
  | @snoc _ s _ l _ hlast ih =>
    obtain ⟨ls', t, hrun', ht⟩ := ih
    cases l with
    | gptReply message now =>
      obtain rfl := Option.some.inj hlast
      have hlabel : t.step p (.gptReply w message now) = t.take w .gptReply (gptReply message now)
          (s.pending.map Pending.await) := by rw [Cluster.step, ht.2]
      obtain ⟨ls'', u, hrun'', hu⟩ := ht.stretch hlabel sampleEnv 0
      refine ⟨_, u, hrun'.append hrun'', ?_⟩
      rwa [show Next.waiting 0 ((gptReply message now).run sampleEnv s.store).result = [] from rfl,
        List.append_nil] at hu
    | handler l =>
      cases l with
      | request text env =>
        obtain rfl := Option.some.inj hlast
        have hlabel : t.step p (.request w text) = t.take w .handler (handle p text)
            (s.pending.map Pending.await) := by rw [Cluster.step, ht.2]
        obtain ⟨ls'', u, hrun'', hu⟩ := ht.stretch hlabel env s.requests
        exact ⟨_, u, hrun'.append hrun'', hu⟩
      | resume index env timeout =>
        obtain ⟨waiting, hwaiting, rfl⟩ := Steps.resume hlast
        have hlabel : t.step p (.resume w index) = t.take w .handler (waiting.await.resume p)
            ((s.pending.eraseIdx index).map Pending.await) := by
          simp [Cluster.step, ht.2, hwaiting, List.eraseIdx_map]
        obtain ⟨ls'', u, hrun'', hu⟩ := ht.stretch hlabel env waiting.request
        exact ⟨_, u, hrun'.append hrun'', hu⟩

end Alone

end Steps

end NetworkServers.Phase2
