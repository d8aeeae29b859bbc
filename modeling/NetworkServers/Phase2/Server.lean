import NetworkServers.Library.Runs
import NetworkServers.Phase2.Handlers

/-!
# The Server Process

Translation of `src/phase2/src/server/handle.ts`, and the runs of one server process:
requests come in at any time, every handler runs up to its next `await` without
interruption, and whatever handlers wait for comes in any order. The log records every
stretch with what it did; it is not part of the program and only there to talk about
what has happened.

A handler that throws ends the worker process, with its sockets and the handlers that wait,
and a new worker starts on the same data files. `Process.step` goes on behind it, as the new
worker does, and the handlers that are gone may be left waiting for ever; so what is so in
every state of every run of a `Process` is so of the workers. Where it matters that a handler
can go on or that a response comes to its end, `WorkerProcess` is a process with its end.
-/

namespace NetworkServers.Phase2

open NetworkServers.Js NetworkServers.Runs
open Prog (require)

/-! ## handle -/

/-- The router that `handle` sets up, `none` where `serve` throws. -/
def makeRouter (p : Platform) : Option Router := do
  let router ← ({} : Router).serve p (js "./site/static")
  let router := router.alias (js "/") (js "/index.html")
  let router := router.alias (js "/chat") (js "/chat.html")
  let router := router.alias (js "/register") (js "/register.html")
  let router := router.alias (js "/login") (js "/login.html")
  let router := router.override (js "/reflect") .reflect
  let router := router.override (js "/compute-sqrt-1e8-times") .computeSqrt
  let router := router.override (js "/register") .register
  let router := router.override (js "/login") .login
  let router := router.override (js "/logout") .logout
  let router := router.override (js "/chat") .chatroom
  return router.override (js "/chat-status") .chatStatus

/-- `router.handle(ctx)`. -/
def Router.handle (p : Platform) (router : Router) (ctx : HTTPContext) : Prog Next :=
  match router.overrides.get? ctx.path.pathname with
  | some route => route.handler p router ctx
  | none => router.serveStatic p ctx.path.pathname

/-- `handle`. -/
def handle (p : Platform) (request : JsString) : Prog Next := do
  let ctx ← require (parse p request)
  let router ← require (makeRouter p)
  router.handle p ctx

/-! ## Processes -/

/-- A stretch: the start of a request, or a handler that goes on. -/
inductive Task where
  | start (request : JsString)
  | resume (a : Await)
deriving DecidableEq

/-- The program of a stretch. -/
def Task.prog (p : Platform) : Task → Prog Next
  | .start request => handle p request
  | .resume a => a.resume p

/-- A stretch that has run, for the request with a number. -/
structure Entry where
  request : ℕ
  task : Task
  effects : List Effect
  result : Option Next

/-- A handler that waits. -/
structure Pending where
  request : ℕ
  await : Await

/-- One process, with the log of its stretches, oldest first. -/
structure Process where
  store : Store
  pending : List Pending
  requests : ℕ
  log : List Entry

/-- A process that has not served any request. -/
def Process.initial : Process :=
  { store := Store.initial, pending := [], requests := 0, log := [] }

/-- What happens next. -/
inductive Label where
  /-- A request comes in. -/
  | request (text : JsString) (env : Env)
  /-- A waiting handler goes on; `timeout` is set if the 15 seconds of `changed()` are
  over. -/
  | resume (index : ℕ) (env : Env) (timeout : Bool)

/-- Whether what a handler waits for can be there. `changed()` settles when it sees
another number of records, and at the latest on its timeout. -/
def Await.settles (s : Store) (timeout : Bool) : Await → Bool
  | .changed size => timeout || size ≠ s.chats.length
  | _ => true

/-- The handlers that wait after a stretch. -/
def Next.waiting (request : ℕ) : Option Next → List Pending
  | some (.await a) => [{ request := request, await := a }]
  | _ => []

/-- Run a stretch and record it. `pending` are the other handlers that wait. -/
def Process.perform (p : Platform) (s : Process) (env : Env) (request : ℕ) (task : Task)
    (pending : List Pending) (requests : ℕ) : Process :=
  let o := (task.prog p).run env s.store
  { store := o.store
    pending := pending ++ Next.waiting request o.result
    requests := requests
    log := s.log ++ [{ request := request, task := task, effects := o.effects
                       result := o.result }] }

/-- One step of a process. -/
def Process.step (p : Platform) (s : Process) : Label → Option Process
  | .request text env =>
    some (s.perform p env s.requests (.start text) s.pending (s.requests + 1))
  | .resume index env timeout => do
    let waiting ← s.pending[index]?
    if waiting.await.settles s.store timeout then
      some (s.perform p env waiting.request (.resume waiting.await) (s.pending.eraseIdx index)
        s.requests)
    else none

/-- The steps as a relation. -/
def Steps (p : Platform) (s : Process) (l : Label) (t : Process) : Prop := s.step p l = some t

/-- A step in which a handler goes on. -/
theorem Steps.resume {p : Platform} {s t : Process} {index : ℕ} {env : Env} {timeout : Bool}
    (h : Steps p s (.resume index env timeout) t) :
    ∃ waiting, s.pending[index]? = some waiting ∧
      t = s.perform p env waiting.request (.resume waiting.await) (s.pending.eraseIdx index)
        s.requests := by
  obtain ⟨waiting, hwaiting, h⟩ := Option.bind_eq_some_iff.mp h
  split at h
  · exact ⟨waiting, hwaiting, (Option.some.inj h).symm⟩
  · cases h

/-- **Runs** of a process from empty data files. -/
abbrev Reaches (p : Platform) (ls : List Label) (s : Process) : Prop :=
  Run (Steps p) Process.initial ls s

/-! ## The end of a worker -/

/-- A process that has just been forked, on the data files that it finds. -/
def Process.forked (store : Store) : Process :=
  { store := store, pending := [], requests := 0, log := [] }

/-- A stretch has thrown. -/
def Process.threw (s : Process) : Bool := s.log.any fun e => e.result.isNone

/-- A worker, from its start to its end. -/
structure WorkerProcess where
  process : Process
  ended : Bool

/-- A worker that has just been forked. -/
def WorkerProcess.forked (store : Store) : WorkerProcess :=
  { process := Process.forked store, ended := false }

/-- What happens next to a worker. -/
inductive WorkerLabel where
  | step (l : Label)
  /-- Another worker has written the data files. -/
  | files (store : Store)
  /-- It ends by something else than a handler: a signal, or a `gpt_reply` that fails. -/
  | exit

/-- One step of a worker. A handler that throws is its end. -/
def WorkerProcess.step (p : Platform) (w : WorkerProcess) (l : WorkerLabel) :
    Option WorkerProcess :=
  if w.ended then none
  else
    match l with
    | .step l => do
      let process ← w.process.step p l
      return { process := process, ended := process.threw }
    | .files store => some { w with process := { w.process with store := store } }
    | .exit => some { w with ended := true }

/-- The steps as a relation. -/
def LivingSteps (p : Platform) (w : WorkerProcess) (l : WorkerLabel) (w' : WorkerProcess) : Prop :=
  w.step p l = some w'

/-- **Runs** of a worker, on whatever data files it is forked. -/
abbrev Lives (p : Platform) (store : Store) (ls : List WorkerLabel) (w : WorkerProcess) : Prop :=
  Run (LivingSteps p) (WorkerProcess.forked store) ls w

/-- The three kinds of steps of a worker. -/
inductive LivingCases (p : Platform) (w : WorkerProcess) : WorkerLabel → WorkerProcess → Prop where
  | step {l : Label} {t : Process} (h : Steps p w.process l t) :
      LivingCases p w (.step l) { process := t, ended := t.threw }
  | files (store : Store) :
      LivingCases p w (.files store) { w with process := { w.process with store := store } }
  | exit : LivingCases p w .exit { w with ended := true }

theorem livingCases {p : Platform} {w w' : WorkerProcess} {l : WorkerLabel}
    (h : LivingSteps p w l w') : w.ended = false ∧ LivingCases p w l w' := by
  obtain ⟨hended, h⟩ := Option.ite_none_left_eq_some.mp h
  refine ⟨Bool.eq_false_of_not_eq_true hended, ?_⟩
  cases l with
  | step l =>
    obtain ⟨t, ht, hw'⟩ := Option.bind_eq_some_iff.mp h
    obtain rfl := Option.some.inj hw'
    exact .step ht
  | files store =>
    obtain rfl := Option.some.inj h
    exact .files store
  | exit =>
    obtain rfl := Option.some.inj h
    exact .exit

/-- What the steps of its process and the other workers keep is so in every state of a
worker. -/
theorem Lives.invariant {p : Platform} {store : Store} {ls : List WorkerLabel} {w : WorkerProcess}
    {I : Process → Prop} (hstart : I (Process.forked store))
    (hstep : ∀ s l t, I s → Steps p s l t → I t)
    (hfiles : ∀ (s : Process) (store : Store), I s → I { s with store := store })
    (h : Lives p store ls w) : I w.process := by
  induction h with
  | nil => exact hstart
  | snoc _ hlast ih =>
    cases (livingCases hlast).2 with
    | step h => exact hstep _ _ _ ih h
    | files store => exact hfiles _ store ih
    | exit => exact ih

/-! ## Sample runs -/

/-- Answers of the surroundings for examples. -/
def sampleEnv : Env := { now := 0, uuid := sampleUuid }

/-- A request as a browser sends it. -/
def sampleRequest (method path : String) (cookie body : JsString) : JsString :=
  js method ++ js " " ++ js path ++ js " HTTP/1.1\r\n" ++ js "Host: localhost\r\n" ++
    js "Cookie: " ++ cookie ++ js "\r\n\r\n" ++ body

/-- A run of the sample server on labels that all give a step. -/
theorem reaches_sample {ls : List Label} {s : Process}
    (h : ls.foldlM (Process.step samplePlatform) Process.initial = some s) :
    Reaches samplePlatform ls s :=
  Run.of_foldlM h

end NetworkServers.Phase2
