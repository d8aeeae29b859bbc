import Mathlib.Data.List.ReduceOption
import NetworkServers.Http.PoolQueue
import NetworkServers.Http.TextBuffers

/-!
# Connections of the HTTP Server

Translation of `server_start` and of `handle_client` of `src/src/http-server.c`, with the pool
and its queue between them and `server_stop` at the end. The kernel gives a descriptor that is
not open, so it gives one again that a worker has closed; a worker knows its connection by the
descriptor only. Of the chat server that `main` runs in the same process there is only what it
shares with the workers, the call of `strtok` for a `/rename`.

A worker makes its response in one go, from the request that it has read. This is what
`handle_client` does while nobody else calls `strtok` between its read and its first write; where
another worker or the chat server does, they share the position of `strtok`, and nothing is said
about the response but that there is one.
-/

namespace NetworkServers.HttpServer

open NetworkServers.CString NetworkServers.Http NetworkServers.Machine NetworkServers.Pool
  NetworkServers.Queue NetworkServers.Runs

/-! ## The server -/

/-- A descriptor. -/
abbrev Fd := ℕ

/-- A connection: what has been done with it. -/
structure Connection where
  /-- What each `read` has returned. -/
  received : List (List UInt8)
  /-- What the kernel has taken of each `write`. -/
  sent : List (List UInt8)
  /-- How often it has been closed. -/
  closes : ℕ
  /-- Whether its response has been made while somebody else called `strtok`. -/
  disturbed : Bool
deriving DecidableEq, Repr

/-- A connection that has been accepted. -/
def Connection.accepted : Connection := { received := [], sent := [], closes := 0, disturbed := false }

/-- Where a worker stands. -/
inductive Worker where
  /-- In `safe_queue_dequeue`. -/
  | dequeuing
  /-- In `handle_client`, before the read. -/
  | reading (fd : Fd)
  /-- Between the read and the first write. -/
  | computing (fd : Fd) (input : List UInt8) (disturbed : Bool)
  /-- The writes that are left, and the close behind them. -/
  | writing (fd : Fd) (rest : List (List UInt8))
  /-- Returned from `thread_pool_worker`. -/
  | exited
deriving DecidableEq, Repr

/-- Where the main thread stands. -/
inductive Owner where
  /-- In `accept`. -/
  | accepting
  /-- Before `thread_pool_push`. -/
  | pushing (fd : Fd)
  /-- In `server_stop`, with the descriptor that it has not pushed. -/
  | stopping (abandoned : Option Fd)
deriving DecidableEq, Repr

/-- The descriptor in the hands of the main thread. -/
def Owner.fd : Owner → Option Fd
  | .accepting => none
  | .pushing fd => some fd
  | .stopping abandoned => abandoned

/-- `struct Server` with its pool, its workers and the kernel. -/
structure Server (n : ℕ) where
  /-- The connection behind an open descriptor. -/
  fds : Fd → Option ℕ
  connections : List Connection
  owner : Owner
  running : Bool
  /-- The descriptors in the arguments of `handle_client`, and `NULL`. -/
  queue : SafeQueue (Option Fd)
  workers : Fin n → Worker

variable {n : ℕ}

/-- The start of the loop of `server_start`. -/
def serverStart (n : ℕ) : Server n where
  fds := fun _ => none
  connections := []
  owner := .accepting
  running := true
  queue := safeQueueCreate
  workers := fun _ => .dequeuing

/-- What happens next. -/
inductive Event (n : ℕ) where
  /-- `accept` returns this descriptor. -/
  | accept (fd : Fd)
  /-- `accept` returns -1. -/
  | acceptFails
  | push
  /-- A signal: `server_stop` begins, and `running` is cleared. -/
  | stop
  /-- `thread_pool_destroy` enqueues `NULL`. -/
  | sentinel
  /-- A dequeue returns to this worker. -/
  | take (i : Fin n)
  /-- `read` returns this input, or nothing if it fails. -/
  | read (i : Fin n) (input : List UInt8)
  /-- The chat server calls `strtok` for a `/rename`. -/
  | rename
  /-- The response is made. The writes are those of a response that has been disturbed. -/
  | respond (i : Fin n) (surroundings : Surroundings) (writes : List (List UInt8))
  /-- A write of which the kernel takes so many bytes. -/
  | write (i : Fin n) (taken : ℕ)
  | close (i : Fin n)

/-- What a call on a descriptor does with the connection behind it, if it is open. -/
def Server.touch (s : Server n) (fd : Fd) (f : Connection → Connection) : List Connection :=
  match s.fds fd with
  | none => s.connections
  | some c => s.connections.modify c f

/-- `accept` has returned a descriptor. -/
def Server.accept (s : Server n) (fd : Fd) : Server n :=
  { s with
    fds := Function.update s.fds fd (some s.connections.length)
    connections := s.connections ++ [Connection.accepted]
    owner := .pushing fd }

def Worker.isComputing : Worker → Bool
  | .computing _ _ _ => true
  | _ => false

/-- Somebody else calls `strtok`. -/
def Worker.disturb : Worker → Worker
  | .computing fd input _ => .computing fd input true
  | w => w

/-- `handle_client` after a read that has failed or returned data. -/
def Server.afterRead (s : Server n) (i : Fin n) (fd : Fd) (input : List UInt8) : Fin n → Worker :=
  if input = [] then Function.update s.workers i (.writing fd [])
  else Function.update (fun j => (s.workers j).disturb) i
    (.computing fd input (decide (∃ j, (s.workers j).isComputing)))

/-- One step. -/
def serverStep (middlewares : List Middleware) (s : Server n) : Event n → Option (Server n)
  | .accept fd =>
    if s.owner = .accepting ∧ s.fds fd = none then some (s.accept fd) else none
  | .acceptFails => if s.owner = .accepting then some s else none
  | .push =>
    match s.owner with
    | .pushing fd =>
      if s.running then
        match safeQueueEnqueue .normal ownerId s.queue (some fd) with
        | .ok queue => some { s with queue := queue, owner := .accepting }
        | .error _ => none
      else some { s with owner := .accepting }
    | _ => none
  | .stop =>
    match s.owner with
    | .stopping _ => none
    | .pushing fd => some { s with owner := .stopping (some fd), running := false }
    | .accepting => some { s with owner := .stopping none, running := false }
  | .sentinel =>
    match s.owner, safeQueueEnqueue .normal ownerId s.queue none with
    | .stopping _, .ok queue => some { s with queue := queue }
    | _, _ => none
  | .take i =>
    match s.workers i, safeQueueDequeue .normal (workerId i) s.queue with
    | .dequeuing, .ok (some (some fd), queue) =>
      some { s with queue := queue, workers := Function.update s.workers i (.reading fd) }
    | .dequeuing, .ok (some none, queue) =>
      -- handle_client is not called with NULL
      if s.running then none
      else some { s with queue := queue, workers := Function.update s.workers i .exited }
    | _, _ => none
  | .read i input =>
    match s.workers i with
    | .reading fd =>
      if input.length < bufferSize ∧ (s.fds fd = none → input = []) then
        some { s with
          connections := s.touch fd fun c => { c with received := c.received ++ [input] }
          workers := s.afterRead i fd input }
      else none
    | _ => none
  | .rename => some { s with workers := fun j => (s.workers j).disturb }
  | .respond i surroundings writes =>
    match s.workers i with
    | .computing fd _ true =>
      -- whatever has been parsed, something is written
      if writes = [] then none
      else
        some { s with
          connections := s.touch fd fun c => { c with disturbed := true }
          workers := Function.update s.workers i (.writing fd writes) }
    | .computing fd input false =>
      match handleClient middlewares surroundings input with
      -- a fault ends the process
      | .error _ => none
      | .ok writes => some { s with workers := Function.update s.workers i (.writing fd writes) }
    | _ => none
  | .write i taken =>
    match s.workers i with
    | .writing fd (chunk :: rest) =>
      some { s with
        connections := s.touch fd fun c => { c with sent := c.sent ++ [chunk.take taken] }
        workers := Function.update s.workers i (.writing fd rest) }
    | _ => none
  | .close i =>
    match s.workers i with
    | .writing fd [] =>
      some { s with
        fds := Function.update s.fds fd none
        connections := s.touch fd fun c => { c with closes := c.closes + 1 }
        workers := Function.update s.workers i .dequeuing }
    | _ => none

/-- The step relation of the server. -/
def ServerStep (middlewares : List Middleware) (s : Server n) (event : Event n) (t : Server n) :
    Prop :=
  serverStep middlewares s event = some t

/-! ## Connections and their stages -/

/-- How far a connection has come. -/
inductive Stage where
  | queued
  | computing (input : List UInt8)
  /-- These writes are left. -/
  | writing (rest : List (List UInt8))
  | closed

/-- What has been sent on the connection is, write by write, a part of the response to what has
been read from it, of which `rest` is left, and which is not empty; nothing has been sent where the
read has failed. -/
def Connection.Answers (middlewares : List Middleware) (c : Connection)
    (rest : List (List UInt8)) : Prop :=
  (c.received = [[]] ∧ c.sent = [] ∧ rest = []) ∨
  ∃ input done, c.received = [input] ∧ input ≠ [] ∧ List.Forall₂ (· <+: ·) c.sent done ∧
    done ++ rest ≠ [] ∧ (c.disturbed = false →
      ∃ surroundings, handleClient middlewares surroundings input = .ok (done ++ rest))

/-- What a connection at a stage has seen. -/
def Connection.At (middlewares : List Middleware) (c : Connection) : Stage → Prop
  | .queued => c = Connection.accepted
  | .computing input =>
    input ≠ [] ∧ c = { Connection.accepted with received := [input] }
  | .writing rest => c.closes = 0 ∧ c.Answers middlewares rest
  | .closed => c.closes = 1 ∧ c.Answers middlewares []

/-- A read makes a queued connection one whose response is made, or one without a response. -/
theorem at_read {middlewares : List Middleware} {c : Connection} {input : List UInt8}
    (h : c.At middlewares .queued) :
    ({ c with received := c.received ++ [input] } : Connection).At middlewares
      (if input = [] then .writing [] else .computing input) := by
  obtain rfl : c = Connection.accepted := h
  split
  · rename_i hempty
    subst hempty
    exact ⟨rfl, .inl ⟨rfl, rfl, rfl⟩⟩
  · rename_i hne
    exact ⟨hne, rfl⟩

/-- `handle_client` always writes something. -/
theorem handleClient_ne_nil {middlewares : List Middleware} {surroundings : Surroundings}
    {input : List UInt8} {writes : List (List UInt8)}
    (h : handleClient middlewares surroundings input = .ok writes) : writes ≠ [] := by
  obtain ⟨request, -, h⟩ := bind_eq_ok.mp h
  obtain ⟨answer, -, h⟩ := bind_eq_ok.mp h
  unfold sendResponse at h
  -- the text of the response, or its header lines in front of the file
  split at h
  · obtain ⟨headers, -, h⟩ := bind_eq_ok.mp h
    obtain rfl := Except.ok.inj h
    exact List.cons_ne_nil _ _
  · obtain ⟨text, -, h⟩ := bind_eq_ok.mp h
    obtain rfl := Except.ok.inj h
    exact List.cons_ne_nil _ _

/-- The response is made of what has been read. -/
theorem at_respond {middlewares : List Middleware} {c : Connection} {input : List UInt8}
    {surroundings : Surroundings} {writes : List (List UInt8)}
    (h : c.At middlewares (.computing input))
    (hwrites : handleClient middlewares surroundings input = .ok writes) :
    c.At middlewares (.writing writes) := by
  obtain ⟨hne, rfl⟩ := h
  exact ⟨rfl, .inr ⟨input, [], rfl, hne, List.Forall₂.nil, handleClient_ne_nil hwrites,
    fun _ => ⟨surroundings, hwrites⟩⟩⟩

/-- The response is made while somebody else calls `strtok`. -/
theorem at_disturb {middlewares : List Middleware} {c : Connection} {input : List UInt8}
    {writes : List (List UInt8)} (hwrites : writes ≠ []) (h : c.At middlewares (.computing input)) :
    ({ c with disturbed := true } : Connection).At middlewares (.writing writes) := by
  obtain ⟨hne, rfl⟩ := h
  exact ⟨rfl, .inr ⟨input, [], rfl, hne, List.Forall₂.nil, hwrites, nofun⟩⟩

/-- A write sends a part of the first chunk that is left. -/
theorem at_write {middlewares : List Middleware} {c : Connection} {chunk : List UInt8}
    {rest : List (List UInt8)} (taken : ℕ) (h : c.At middlewares (.writing (chunk :: rest))) :
    ({ c with sent := c.sent ++ [chunk.take taken] } : Connection).At middlewares
      (.writing rest) := by
  obtain ⟨hcloses, ⟨-, -, hnone⟩ | ⟨input, done, hreceived, hne, hsent, -, hdone⟩⟩ := h
  · cases hnone
  · refine ⟨hcloses, .inr ⟨input, done ++ [chunk], hreceived, hne, ?_, by simp, ?_⟩⟩
    · exact List.rel_append hsent (List.Forall₂.cons (List.take_prefix _ _) List.Forall₂.nil)
    · simpa using hdone

theorem at_close {middlewares : List Middleware} {c : Connection}
    (h : c.At middlewares (.writing [])) :
    ({ c with closes := c.closes + 1 } : Connection).At middlewares .closed :=
  ⟨congrArg (· + 1) h.1, h.2⟩

/-- A connection that has been closed has been answered. -/
theorem answers_of_closes {middlewares : List Middleware} {c : Connection} {stage : Stage}
    (h : c.At middlewares stage) (hcloses : c.closes = 1) : c.Answers middlewares [] := by
  cases stage with
  | queued =>
    obtain rfl : c = Connection.accepted := h
    cases hcloses
  | computing input =>
    obtain ⟨-, rfl⟩ := h
    cases hcloses
  | writing rest => exact absurd (h.1.symm.trans hcloses) (by decide)
  | closed => exact h.2

/-- What has been answered has been written for. -/
theorem Connection.Answers.sent_ne_nil {middlewares : List Middleware} {c : Connection}
    (h : c.Answers middlewares []) (hread : c.received ≠ [[]]) : c.sent ≠ [] := by
  obtain ⟨hfailed, -⟩ | ⟨input, done, -, -, hsent, hdone, -⟩ := h
  · exact absurd hfailed hread
  · rintro hnone
    rw [hnone, List.forall₂_nil_left_iff] at hsent
    exact hdone (by rw [hsent, List.nil_append])

/-! ## The invariant -/

/-- The descriptor in the hands of a worker, and how far its connection has come. -/
def Worker.stage : Worker → Option (Fd × Stage)
  | .reading fd => some (fd, .queued)
  | .computing fd input _ => some (fd, .computing input)
  | .writing fd rest => some (fd, .writing rest)
  | _ => none

theorem stage_disturb (w : Worker) : w.disturb.stage = w.stage := by
  cases w <;> rfl

/-- The descriptors that no worker has taken yet. -/
def waiting (owner : Owner) (items : List (Option Fd)) : List Fd :=
  items.reduceOption ++ owner.fd.toList

/-- The descriptor is open, and its connection is at this stage. -/
def Server.At (middlewares : List Middleware) (s : Server n) (fd : Fd) (stage : Stage) : Prop :=
  ∃ c conn, s.fds fd = some c ∧ s.connections[c]? = some conn ∧ conn.At middlewares stage

/-- Who has which descriptor, while the queue holds `items`. -/
structure Inv (middlewares : List Middleware) (s : Server n) (items : List (Option Fd)) :
    Prop where
  open_lt : ∀ fd c, s.fds fd = some c → c < s.connections.length
  open_inj : ∀ fd fd' c, s.fds fd = some c → s.fds fd' = some c → fd = fd'
  waiting_nodup : (waiting s.owner items).Nodup
  waiting_at : ∀ fd ∈ waiting s.owner items, s.At middlewares fd .queued
  worker_at : ∀ i fd stage, (s.workers i).stage = some (fd, stage) → s.At middlewares fd stage
  worker_taken : ∀ i fd stage, (s.workers i).stage = some (fd, stage) → fd ∉ waiting s.owner items
  workers_apart : ∀ i j fd stage stage', (s.workers i).stage = some (fd, stage) →
    (s.workers j).stage = some (fd, stage') → i = j
  held : ∀ fd c, s.fds fd = some c →
    fd ∈ waiting s.owner items ∨ ∃ i stage, (s.workers i).stage = some (fd, stage)
  closed_or_open : ∀ c conn, s.connections[c]? = some conn →
    conn.At middlewares .closed ∨ ∃ fd, s.fds fd = some c

/-- How the pool ends: `NULL` is behind all descriptors, and a worker exits once it is in front. -/
structure Drains (s : Server n) (items : List (Option Fd)) : Prop where
  stopped : s.running = false ↔ ∃ abandoned, s.owner = .stopping abandoned
  sentinels : s.running = true → none ∉ items
  behind : items.Pairwise fun a b => a = none → b = none
  exited : ∀ i, s.workers i = .exited → s.running = false ∧ items.reduceOption = []

/-- What holds in every reachable state. -/
def Reached (middlewares : List Middleware) (s : Server n) : Prop :=
  ∃ items, Settled s.queue items ∧ Inv middlewares s items ∧ Drains s items

section Invariant

variable {middlewares : List Middleware} {s t : Server n} {items : List (Option Fd)} {i : Fin n}
  {fd : Fd} {stage stage' : Stage}

theorem reached_start (n : ℕ) : Reached middlewares (serverStart n) := by
  refine ⟨[], settled_create, ?_, ?_⟩
  · exact {
      open_lt := by simp [serverStart]
      open_inj := by simp [serverStart]
      waiting_nodup := List.nodup_nil
      waiting_at := by simp [serverStart, waiting, Owner.fd]
      worker_at := by simp [serverStart, Worker.stage]
      worker_taken := by simp [serverStart, Worker.stage]
      workers_apart := by simp [serverStart, Worker.stage]
      held := by simp [serverStart]
      closed_or_open := by simp [serverStart] }
  · exact {
      stopped := by simp [serverStart]
      sentinels := by simp
      behind := List.Pairwise.nil
      exited := by simp [serverStart] }

/-- An enqueue appends, while there is room. -/
theorem settled_enqueue {q : SafeQueue (Option Fd)} (h : Settled q items)
    (hroom : items.length < initialCapacity) (self : ThreadId) (item : Option Fd) :
    ∃ q', safeQueueEnqueue .normal self q item = .ok q' ∧ Settled q' (items ++ [item]) := by
  have hne : q.size ≠ q.capacity := by
    rw [h.size_eq, h.capacity]
    exact hroom.ne
  obtain ⟨q', hsection, hsettled⟩ := h.enqueue self hroom item
  refine ⟨q', ?_, hsettled⟩
  unfold safeQueueEnqueue
  rw [if_neg hne]
  exact hsection

/-- A dequeue that returns has taken the oldest item. -/
theorem settled_dequeue {q q' : SafeQueue (Option Fd)} {item : Option (Option Fd)} {self : ThreadId}
    (h : Settled q items) (hdequeue : safeQueueDequeue .normal self q = .ok (item, q')) :
    ∃ first rest, item = some first ∧ items = first :: rest ∧ Settled q' rest := by
  cases items with
  | nil =>
    rw [h.dequeue_nil] at hdequeue
    cases hdequeue
  | cons first rest =>
    by_cases hquarter : rest.length = quarter
    · rw [h.dequeue_relock self hquarter] at hdequeue
      cases hdequeue
    · obtain ⟨q'', hok, hsettled⟩ := h.dequeue self hquarter
      rw [hok] at hdequeue
      cases hdequeue
      exact ⟨first, rest, rfl, rfl, hsettled⟩

/-- What is done on an open descriptor. -/
theorem touch_getElem {f : Connection → Connection} {c : ℕ} (hfd : s.fds fd = some c) (d : ℕ) :
    (s.touch fd f)[d]? = s.connections[d]?.map fun conn => if c = d then f conn else conn := by
  rw [Server.touch, hfd]
  exact List.getElem?_modify f c s.connections d

theorem touch_id (s : Server n) (fd : Fd) : s.touch fd id = s.connections := by
  unfold Server.touch
  split
  · rfl
  · exact List.modify_id _ _

theorem length_touch (s : Server n) (fd : Fd) (f : Connection → Connection) :
    (s.touch fd f).length = s.connections.length := by
  unfold Server.touch
  split
  · rfl
  · exact List.length_modify ..

/-- What is done on one descriptor is not seen on another one. -/
theorem Inv.at_touch (h : Inv middlewares s items) {f : Connection → Connection} {fd' : Fd}
    (hfd : fd' ≠ fd) {fds : Fd → Option ℕ} (hfds : fds fd' = s.fds fd') {owner : Owner}
    {running : Bool} {queue : SafeQueue (Option Fd)} {workers : Fin n → Worker}
    (hat : s.At middlewares fd' stage) :
    Server.At middlewares ⟨fds, s.touch fd f, owner, running, queue, workers⟩ fd' stage := by
  obtain ⟨d, conn, hopen, hconn, hstage⟩ := hat
  refine ⟨d, conn, hfds.trans hopen, ?_, hstage⟩
  cases hc : s.fds fd with
  | none => simpa [Server.touch, hc] using hconn
  | some c =>
    have hne : c ≠ d := by
      rintro rfl
      exact hfd (h.open_inj _ _ _ hopen hc)
    simp only [touch_getElem hc, hconn, Option.map_some, if_neg hne]

/-- What a worker does with its own connection, which it keeps or closes. -/
theorem Inv.workerMoves (h : Inv middlewares s items) {f : Connection → Connection}
    {fds : Fd → Option ℕ} {workers : Fin n → Worker} (hi : (s.workers i).stage = some (fd, stage))
    (hf : ∀ conn, Connection.At middlewares conn stage → (f conn).At middlewares stage')
    (hothers : ∀ j ≠ i, (workers j).stage = (s.workers j).stage)
    (hfds : ∀ fd' ≠ fd, fds fd' = s.fds fd')
    (hi' : (workers i).stage = some (fd, stage') ∧ fds fd = s.fds fd ∨
      (workers i).stage = none ∧ fds fd = none ∧ stage' = .closed) :
    Inv middlewares { s with fds := fds, connections := s.touch fd f, workers := workers } items := by
  obtain ⟨c, own, hopen, hown, hstage⟩ := h.worker_at i fd stage hi
  have hsub : ∀ fd' d, fds fd' = some d → s.fds fd' = some d := by
    intro fd' d hd
    by_cases hfd : fd' = fd
    · subst hfd
      obtain ⟨-, hsame⟩ | ⟨-, hnone, -⟩ := hi'
      · exact hsame ▸ hd
      · rw [hnone] at hd
        cases hd
    · exact hfds fd' hfd ▸ hd
  -- the stages that the workers hold afterwards
  have hstages : ∀ j fd' st, (workers j).stage = some (fd', st) →
      (j = i ∧ fd' = fd ∧ st = stage' ∧ fds fd = s.fds fd) ∨
        (j ≠ i ∧ fd' ≠ fd ∧ (s.workers j).stage = some (fd', st)) := by
    intro j fd' st hj
    by_cases hji : j = i
    · subst hji
      obtain ⟨hkept, hsame⟩ | ⟨hnone, -, -⟩ := hi'
      · rw [hkept] at hj
        cases hj
        exact .inl ⟨rfl, rfl, rfl, hsame⟩
      · rw [hnone] at hj
        cases hj
    · rw [hothers j hji] at hj
      refine .inr ⟨hji, ?_, hj⟩
      rintro rfl
      exact hji (h.workers_apart j i _ _ _ hj hi)
  exact {
    open_lt := fun fd' d hd => (length_touch s fd f).symm ▸ h.open_lt fd' d (hsub fd' d hd)
    open_inj := fun fd₁ fd₂ d h₁ h₂ => h.open_inj _ _ _ (hsub _ _ h₁) (hsub _ _ h₂)
    waiting_nodup := h.waiting_nodup
    waiting_at := by
      intro fd' hfd'
      have hne : fd' ≠ fd := by
        rintro rfl
        exact h.worker_taken i _ _ hi hfd'
      exact h.at_touch hne (hfds fd' hne) (h.waiting_at fd' hfd')
    worker_at := by
      intro j fd' st hj
      obtain ⟨rfl, rfl, rfl, hsame⟩ | ⟨-, hne, hold⟩ := hstages j fd' st hj
      · refine ⟨c, f own, hsame.trans hopen, ?_, hf own hstage⟩
        simp only [touch_getElem hopen, hown, Option.map_some, if_true]
      · exact h.at_touch hne (hfds fd' hne) (h.worker_at j fd' st hold)
    worker_taken := by
      intro j fd' st hj
      obtain ⟨rfl, rfl, rfl, -⟩ | ⟨-, -, hold⟩ := hstages j fd' st hj
      · exact h.worker_taken _ _ _ hi
      · exact h.worker_taken j fd' st hold
    workers_apart := by
      intro j k fd' st st' hj hk
      obtain ⟨rfl, rfl, -, -⟩ | ⟨-, hne, hold⟩ := hstages j fd' st hj
      · obtain ⟨rfl, -⟩ | ⟨-, hne, -⟩ := hstages k _ st' hk
        · rfl
        · exact absurd rfl hne
      · obtain ⟨rfl, rfl, -⟩ | ⟨-, -, hold'⟩ := hstages k fd' st' hk
        · exact absurd rfl hne
        · exact h.workers_apart j k fd' st st' hold hold'
    held := by
      intro fd' d hd
      by_cases hfd : fd' = fd
      · subst hfd
        obtain ⟨hkept, -⟩ | ⟨-, hnone, -⟩ := hi'
        · exact .inr ⟨i, stage', hkept⟩
        · exact absurd (hnone.symm.trans hd) (by simp)
      · obtain hwaits | ⟨j, st, hj⟩ := h.held fd' d (hsub fd' d hd)
        · exact .inl hwaits
        · have hji : j ≠ i := by
            rintro rfl
            rw [hi] at hj
            cases hj
            exact hfd rfl
          exact .inr ⟨j, st, (hothers j hji).trans hj⟩
    closed_or_open := by
      intro d conn hconn
      change (s.touch fd f)[d]? = some conn at hconn
      rw [touch_getElem hopen] at hconn
      obtain ⟨old, hold, rfl⟩ := Option.map_eq_some_iff.mp hconn
      by_cases hcd : c = d
      · subst hcd
        obtain rfl : own = old := Option.some.inj (hown.symm.trans hold)
        obtain ⟨-, hsame⟩ | ⟨-, -, rfl⟩ := hi'
        · exact .inr ⟨fd, hsame.trans hopen⟩
        · rw [if_pos rfl]
          exact .inl (hf own hstage)
      · rw [if_neg hcd]
        refine (h.closed_or_open d old hold).imp id ?_
        rintro ⟨fd', hfd'⟩
        refine ⟨fd', (hfds fd' ?_).trans hfd'⟩
        rintro rfl
        exact hcd (Option.some.inj (hopen.symm.trans hfd')) }

/-- A step that only moves descriptors that wait. -/
theorem Inv.waits (h : Inv middlewares s items) {owner : Owner} {running : Bool}
    {queue : SafeQueue (Option Fd)} {items' : List (Option Fd)} {workers : Fin n → Worker}
    (hwaiting : waiting owner items' = waiting s.owner items)
    (hworkers : ∀ j, (workers j).stage = (s.workers j).stage) :
    Inv middlewares { s with
      owner := owner, running := running, queue := queue, workers := workers } items' where
  open_lt := h.open_lt
  open_inj := h.open_inj
  waiting_nodup := hwaiting.symm ▸ h.waiting_nodup
  waiting_at fd hfd := h.waiting_at fd (hwaiting ▸ hfd)
  worker_at i fd st hi := h.worker_at i fd st (hworkers i ▸ hi)
  worker_taken i fd st hi hfd := h.worker_taken i fd st (hworkers i ▸ hi) (hwaiting ▸ hfd)
  workers_apart i j fd st st' hi hj :=
    h.workers_apart i j fd st st' (hworkers i ▸ hi) (hworkers j ▸ hj)
  held fd c hfd :=
    (h.held fd c hfd).imp (fun hmem => hwaiting.symm ▸ hmem)
      fun ⟨i, st, hi⟩ => ⟨i, st, (hworkers i).trans hi⟩
  closed_or_open := h.closed_or_open

/-- The descriptors that are open once another one is. -/
theorem accept_open {fd' : Fd} {c : ℕ} (h : (s.accept fd).fds fd' = some c) :
    (fd' = fd ∧ c = s.connections.length) ∨ s.fds fd' = some c := by
  have hupdate : Function.update s.fds fd (some s.connections.length) fd' = some c := h
  by_cases hfd : fd' = fd
  · subst hfd
    rw [Function.update_self] at hupdate
    exact .inl ⟨rfl, (Option.some.inj hupdate).symm⟩
  · rw [Function.update_of_ne hfd] at hupdate
    exact .inr hupdate

/-- What was open stands for what it stood for. -/
theorem Inv.at_accept (h : Inv middlewares s items) (hfd : s.fds fd = none) {fd' : Fd}
    (hat : s.At middlewares fd' stage) : fd' ≠ fd ∧ (s.accept fd).At middlewares fd' stage := by
  obtain ⟨c, conn, hopen, hconn, hstage⟩ := hat
  have hne : fd' ≠ fd := by
    rintro rfl
    rw [hfd] at hopen
    cases hopen
  refine ⟨hne, c, conn, (Function.update_of_ne hne _ _).trans hopen, ?_, hstage⟩
  exact (List.getElem?_append_left (h.open_lt fd' c hopen)).trans hconn

/-- A connection that is accepted gets a descriptor that nobody has. -/
theorem Inv.accepts (h : Inv middlewares s items) (howner : s.owner = .accepting)
    (hfd : s.fds fd = none) : Inv middlewares (s.accept fd) items := by
  have hlength : (s.accept fd).connections.length = s.connections.length + 1 :=
    List.length_append
  have hnew : (s.accept fd).fds fd = some s.connections.length := Function.update_self ..
  have hwaiting : waiting (s.accept fd).owner items = waiting s.owner items ++ [fd] := by
    simp [waiting, Server.accept, howner, Owner.fd]
  exact {
    open_lt := by
      intro fd' c hc
      rw [hlength]
      obtain ⟨-, rfl⟩ | hold := accept_open hc
      · exact Nat.lt_succ_self _
      · exact (h.open_lt fd' c hold).trans (Nat.lt_succ_self _)
    -- the new descriptor has a connection that no other one has
    open_inj := by
      intro fd₁ fd₂ c h₁ h₂
      obtain ⟨rfl, rfl⟩ | hold₁ := accept_open h₁
      · obtain ⟨rfl, -⟩ | hold₂ := accept_open h₂
        · rfl
        · exact absurd (h.open_lt fd₂ _ hold₂) (lt_irrefl _)
      · obtain ⟨rfl, rfl⟩ | hold₂ := accept_open h₂
        · exact absurd (h.open_lt fd₁ _ hold₁) (lt_irrefl _)
        · exact h.open_inj fd₁ fd₂ c hold₁ hold₂
    -- accept gives a descriptor that is open nowhere, so nobody waits for it
    waiting_nodup := by
      rw [hwaiting]
      refine List.nodup_append.mpr ⟨h.waiting_nodup, List.nodup_singleton fd, ?_⟩
      intro a ha b hb
      rw [List.mem_singleton.mp hb]
      exact (h.at_accept hfd (h.waiting_at a ha)).1
    waiting_at := by
      intro fd' hfd'
      rw [hwaiting] at hfd'
      rcases List.mem_append.mp hfd' with hold | hlast
      · exact (h.at_accept hfd (h.waiting_at fd' hold)).2
      · obtain rfl := List.mem_singleton.mp hlast
        exact ⟨s.connections.length, Connection.accepted, hnew, List.getElem?_concat_length, rfl⟩
    worker_at := fun i fd' st hi => (h.at_accept hfd (h.worker_at i fd' st hi)).2
    worker_taken := by
      intro i fd' st hi hmem
      rw [hwaiting] at hmem
      rcases List.mem_append.mp hmem with hold | hlast
      · exact h.worker_taken i fd' st hi hold
      · exact (h.at_accept hfd (h.worker_at i fd' st hi)).1 (List.mem_singleton.mp hlast)
    workers_apart := h.workers_apart
    held := by
      intro fd' c hc
      rw [hwaiting, List.mem_append]
      obtain ⟨rfl, -⟩ | hold := accept_open hc
      · exact .inl (.inr (List.mem_singleton_self _))
      · exact (h.held fd' c hold).imp .inl id
    -- the last connection is the new one, all others are as they were
    closed_or_open := by
      intro c conn hconn
      by_cases hlt : c < s.connections.length
      · have hold : s.connections[c]? = some conn :=
          (List.getElem?_append_left hlt).symm.trans hconn
        refine (h.closed_or_open c conn hold).imp id ?_
        rintro ⟨fd', hfd'⟩
        have hne : fd' ≠ fd := by
          rintro rfl
          rw [hfd] at hfd'
          cases hfd'
        exact ⟨fd', (Function.update_of_ne hne _ _).trans hfd'⟩
      · have hc : c < (s.accept fd).connections.length := (List.getElem?_eq_some_iff.mp hconn).1
        obtain rfl : c = s.connections.length := by omega
        exact .inr ⟨fd, hnew⟩ }

/-- The stages of the workers when one of them moves on. -/
theorem stage_update (w : Worker) {j : Fin n} (hj : j ≠ i) :
    (Function.update s.workers i w j).stage = (s.workers j).stage := by
  rw [Function.update_of_ne hj]

/-- A worker takes the first descriptor of the queue. -/
theorem Inv.takes (h : Inv middlewares s (some fd :: items)) {queue : SafeQueue (Option Fd)}
    (hi : (s.workers i).stage = none) :
    Inv middlewares { s with
      queue := queue, workers := Function.update s.workers i (.reading fd) } items := by
  have hwaiting : waiting s.owner (some fd :: items) = fd :: waiting s.owner items := rfl
  have hnodup := h.waiting_nodup
  rw [hwaiting] at hnodup
  obtain ⟨hfresh, hnodup⟩ := List.nodup_cons.mp hnodup
  have hsub : ∀ fd' ∈ waiting s.owner items, fd' ∈ waiting s.owner (some fd :: items) := by
    intro fd' hfd'
    rw [hwaiting]
    exact List.mem_cons_of_mem fd hfd'
  have hmine : fd ∈ waiting s.owner (some fd :: items) := by
    rw [hwaiting]
    exact List.mem_cons_self
  -- only this worker has another stage, and it has the head of the queue
  have hstages : ∀ j fd' st, (Function.update s.workers i (.reading fd) j).stage = some (fd', st) →
      (j = i ∧ fd' = fd ∧ st = .queued) ∨ (j ≠ i ∧ (s.workers j).stage = some (fd', st)) := by
    intro j fd' st hj
    by_cases hji : j = i
    · subst hji
      rw [Function.update_self] at hj
      cases hj
      exact .inl ⟨rfl, rfl, rfl⟩
    · rw [Function.update_of_ne hji] at hj
      exact .inr ⟨hji, hj⟩
  have htaken : (Function.update s.workers i (.reading fd) i).stage = some (fd, .queued) := by
    rw [Function.update_self]
    rfl
  exact {
    open_lt := h.open_lt
    open_inj := h.open_inj
    waiting_nodup := hnodup
    waiting_at := fun fd' hfd' => h.waiting_at fd' (hsub fd' hfd')
    worker_at := by
      intro j fd' st hj
      obtain ⟨-, rfl, rfl⟩ | ⟨-, hold⟩ := hstages j fd' st hj
      · exact h.waiting_at _ hmine
      · exact h.worker_at j fd' st hold
    worker_taken := by
      intro j fd' st hj
      obtain ⟨-, rfl, rfl⟩ | ⟨-, hold⟩ := hstages j fd' st hj
      · exact hfresh
      · exact fun hmem => h.worker_taken j fd' st hold (hsub fd' hmem)
    -- a descriptor that waits is at no worker, so the one taken is not shared
    workers_apart := by
      intro j k fd' st st' hj hk
      obtain ⟨rfl, rfl, -⟩ | ⟨-, hold⟩ := hstages j fd' st hj
      · obtain ⟨rfl, -⟩ | ⟨-, hold'⟩ := hstages k _ st' hk
        · rfl
        · exact absurd hmine (h.worker_taken k _ _ hold')
      · obtain ⟨rfl, rfl, -⟩ | ⟨-, hold'⟩ := hstages k fd' st' hk
        · exact absurd hmine (h.worker_taken j _ _ hold)
        · exact h.workers_apart j k fd' st st' hold hold'
    held := by
      intro fd' c hc
      obtain hwaits | ⟨j, st, hj⟩ := h.held fd' c hc
      · rw [hwaiting] at hwaits
        obtain rfl | hlater := List.mem_cons.mp hwaits
        · exact .inr ⟨i, .queued, htaken⟩
        · exact .inl hlater
      · have hji : j ≠ i := by
          rintro rfl
          rw [hi] at hj
          cases hj
        exact .inr ⟨j, st, (stage_update _ hji).trans hj⟩
    closed_or_open := h.closed_or_open }

theorem afterRead_stage (s : Server n) (i : Fin n) (fd : Fd) (input : List UInt8) :
    (s.afterRead i fd input i).stage =
      some (fd, if input = [] then .writing [] else .computing input) := by
  unfold Server.afterRead
  split <;> rw [Function.update_self] <;> rfl

theorem afterRead_others {input : List UInt8} {j : Fin n} (hj : j ≠ i) :
    (s.afterRead i fd input j).stage = (s.workers j).stage := by
  unfold Server.afterRead
  split
  · rw [Function.update_of_ne hj]
  · rw [Function.update_of_ne hj, stage_disturb]

theorem afterRead_exited {input : List UInt8} {j : Fin n}
    (h : s.afterRead i fd input j = .exited) : s.workers j = .exited := by
  by_cases hj : j = i
  · subst hj
    have hstage := afterRead_stage s j fd input
    rw [h] at hstage
    cases hstage
  · unfold Server.afterRead at h
    split at h
    · rwa [Function.update_of_ne hj] at h
    · rw [Function.update_of_ne hj] at h
      cases hw : s.workers j <;> simp_all [Worker.disturb]

theorem update_exited {w : Worker} (hw : w ≠ .exited) {j : Fin n}
    (h : Function.update s.workers i w j = .exited) : s.workers j = .exited := by
  by_cases hj : j = i
  · subst hj
    rw [Function.update_self] at h
    exact absurd h hw
  · rwa [Function.update_of_ne hj] at h

theorem disturb_exited {w : Worker} (h : w.disturb = .exited) : w = .exited := by
  cases w <;> simp_all [Worker.disturb]

/-- The workers stay where they are when `strtok` is called. -/
theorem Inv.disturbs (h : Inv middlewares s items) :
    Inv middlewares { s with workers := fun j => (s.workers j).disturb } items :=
  { h with
    worker_at := fun i fd stage hi => h.worker_at i fd stage (stage_disturb (s.workers i) ▸ hi)
    worker_taken := fun i fd stage hi => h.worker_taken i fd stage (stage_disturb (s.workers i) ▸ hi)
    workers_apart := fun i j fd stage stage' hi hj => h.workers_apart i j fd stage stage'
      (stage_disturb (s.workers i) ▸ hi) (stage_disturb (s.workers j) ▸ hj)
    held := fun fd c hfd => (h.held fd c hfd).imp id fun ⟨i, stage, hi⟩ =>
      ⟨i, stage, (stage_disturb (s.workers i)).trans hi⟩ }

/-- A step that neither enqueues nor ends a worker. -/
theorem Drains.moves (h : Drains s items) {items' : List (Option Fd)}
    (hrunning : t.running = s.running)
    (howner : (∃ abandoned, t.owner = .stopping abandoned) ↔
      ∃ abandoned, s.owner = .stopping abandoned)
    (hitems : items' <:+ items) (hworkers : ∀ j, t.workers j = .exited → s.workers j = .exited) :
    Drains t items' where
  stopped := by rw [hrunning, howner, h.stopped]
  sentinels hserving hmem := h.sentinels (hrunning ▸ hserving) (hitems.subset hmem)
  behind := h.behind.sublist hitems.sublist
  exited j hj := by
    obtain ⟨hstopped, hnil⟩ := h.exited j (hworkers j hj)
    refine ⟨hrunning.trans hstopped, List.eq_nil_of_subset_nil ?_⟩
    rw [← hnil]
    exact (hitems.sublist.filterMap _).subset

/-- The queue is served while the owner is in its loop. -/
theorem Drains.running (h : Drains s items) (howner : ∀ abandoned, s.owner ≠ .stopping abandoned) :
    s.running = true := by
  cases hrunning : s.running with
  | true => rfl
  | false =>
    obtain ⟨abandoned, hstopping⟩ := h.stopped.mp hrunning
    exact absurd hstopping (howner abandoned)

/-- A descriptor is enqueued while no worker has exited. -/
theorem Drains.push (h : Drains s items) (hrunning : s.running = true)
    {queue : SafeQueue (Option Fd)} :
    Drains { s with queue := queue, owner := .accepting } (items ++ [some fd]) where
  stopped := by simp [hrunning]
  sentinels _ := by simpa using h.sentinels hrunning
  behind := by
    refine List.pairwise_append.mpr ⟨h.behind, List.pairwise_singleton _ _, ?_⟩
    rintro a ha - - rfl
    exact absurd ha (h.sentinels hrunning)
  exited j hj := absurd ((h.exited j hj).1.symm.trans hrunning) (by simp)

/-- `NULL` is enqueued behind all descriptors. -/
theorem Drains.sentinel (h : Drains s items) (hrunning : s.running = false)
    {queue : SafeQueue (Option Fd)} : Drains { s with queue := queue } (items ++ [none]) where
  stopped := h.stopped
  sentinels hserving := absurd (hrunning.symm.trans hserving) (by simp)
  behind := by
    refine List.pairwise_append.mpr ⟨h.behind, List.pairwise_singleton _ _, ?_⟩
    rintro - - b hb -
    exact List.mem_singleton.mp hb
  exited j hj := by
    rw [List.reduceOption_append, (h.exited j hj).2]
    exact ⟨hrunning, rfl⟩

/-- A worker exits once no descriptor waits. -/
theorem Drains.exits (h : Drains s (none :: items)) (hrunning : s.running = false)
    {queue : SafeQueue (Option Fd)} {workers : Fin n → Worker} :
    Drains { s with queue := queue, workers := workers } items where
  stopped := h.stopped
  sentinels hserving := absurd (hrunning.symm.trans hserving) (by simp)
  behind := (List.pairwise_cons.mp h.behind).2
  exited j _ := by
    refine ⟨hrunning, List.reduceOption_eq_nil_iff items |>.mpr ?_⟩
    exact ⟨items.length, List.eq_replicate_iff.mpr
      ⟨rfl, fun b hb => (List.pairwise_cons.mp h.behind).1 b hb rfl⟩⟩

/-- Every step keeps what holds in every reachable state, while the queue has room. -/
theorem serverStep_reached (h : Reached middlewares s) {event : Event n}
    (hroom : s.queue.size < initialCapacity) (hstep : ServerStep middlewares s event t) :
    Reached middlewares t := by
  obtain ⟨items, hsettled, hinv, hdrains⟩ := h
  rw [hsettled.size_eq] at hroom
  unfold ServerStep at hstep
  cases event with
  | accept fd =>
    simp only [serverStep] at hstep
    split at hstep
    · rename_i hfree
      cases hstep
      exact ⟨items, hsettled, hinv.accepts hfree.1 hfree.2, hdrains.moves rfl
        (by simp [Server.accept, hfree.1]) (List.suffix_refl _) fun _ => id⟩
    · cases hstep
  | acceptFails =>
    simp only [serverStep] at hstep
    split at hstep <;> cases hstep
    exact ⟨items, hsettled, hinv, hdrains⟩
  | push =>
    simp only [serverStep] at hstep
    split at hstep
    · rename_i fd howner
      have hrunning := hdrains.running (by simp [howner])
      obtain ⟨q, henqueue, hsettled'⟩ := settled_enqueue hsettled hroom ownerId (some fd)
      rw [if_pos hrunning, henqueue] at hstep
      cases hstep
      refine ⟨_, hsettled', hinv.waits ?_ fun _ => rfl, hdrains.push hrunning⟩
      simp [waiting, howner, Owner.fd, List.reduceOption_append]
    · cases hstep
  | stop =>
    simp only [serverStep] at hstep
    have hstops : ∀ owner : Owner, owner.fd = s.owner.fd → (∃ abandoned, owner = .stopping abandoned) →
        (∀ abandoned, s.owner ≠ .stopping abandoned) →
        Reached middlewares { s with owner := owner, running := false } := by
      intro owner hfd hstopping hserving
      refine ⟨items, hsettled, hinv.waits (by rw [waiting, hfd, waiting]) fun _ => rfl, ?_⟩
      exact {
        stopped := by simpa using hstopping
        sentinels := by simp
        behind := hdrains.behind
        exited := fun j hj => ⟨rfl, (hdrains.exited j hj).2⟩ }
    split at hstep
    · cases hstep
    · rename_i fd howner
      cases hstep
      exact hstops _ (by rw [howner]; rfl) ⟨_, rfl⟩ (by simp [howner])
    · rename_i howner
      cases hstep
      exact hstops _ (by rw [howner]; rfl) ⟨_, rfl⟩ (by simp [howner])
  | sentinel =>
    simp only [serverStep] at hstep
    split at hstep
    · rename_i abandoned q howner henqueue
      cases hstep
      obtain ⟨q', henqueue', hsettled'⟩ := settled_enqueue hsettled hroom ownerId none
      obtain rfl : q' = q := Except.ok.inj (henqueue'.symm.trans henqueue)
      refine ⟨_, hsettled', hinv.waits ?_ fun _ => rfl,
        hdrains.sentinel (hdrains.stopped.mpr ⟨abandoned, howner⟩)⟩
      simp [waiting, List.reduceOption_append]
    · cases hstep
  | take i =>
    simp only [serverStep] at hstep
    split at hstep
    · rename_i fd q hworker hdequeue
      obtain ⟨first, rest, hfirst, rfl, hsettled'⟩ := settled_dequeue hsettled hdequeue
      cases hfirst
      cases hstep
      exact ⟨rest, hsettled', hinv.takes (by rw [hworker]; rfl), hdrains.moves rfl Iff.rfl
        (List.suffix_cons _ _) fun j => update_exited (by simp)⟩
    · rename_i q hworker hdequeue
      obtain ⟨first, rest, hfirst, rfl, hsettled'⟩ := settled_dequeue hsettled hdequeue
      cases hfirst
      split at hstep
      · cases hstep
      · rename_i hrunning
        cases hstep
        refine ⟨rest, hsettled', hinv.waits rfl fun j => ?_,
          hdrains.exits (Bool.eq_false_iff.mpr hrunning)⟩
        by_cases hj : j = i
        · subst hj
          rw [Function.update_self, hworker]
          rfl
        · exact stage_update _ hj
    · cases hstep
  | read i input =>
    simp only [serverStep] at hstep
    split at hstep
    · rename_i fd hworker
      split at hstep <;> cases hstep
      exact ⟨items, hsettled, hinv.workerMoves (by rw [hworker]; rfl) (fun conn => at_read)
        (fun j hj => afterRead_others hj) (fun _ _ => rfl)
        (.inl ⟨afterRead_stage s i fd input, rfl⟩), hdrains.moves rfl Iff.rfl
        (List.suffix_refl _) fun j => afterRead_exited⟩
    · cases hstep
  | rename =>
    obtain rfl := Option.some.inj hstep
    refine ⟨items, hsettled, hinv.disturbs, hdrains.moves rfl Iff.rfl (List.suffix_refl _) ?_⟩
    exact fun j hj => disturb_exited hj
  | respond i surroundings writes =>
    simp only [serverStep] at hstep
    split at hstep
    · rename_i fd input hworker
      obtain ⟨hwrites, hstep⟩ := Option.ite_none_left_eq_some.mp hstep
      cases hstep
      exact ⟨items, hsettled, hinv.workerMoves (by rw [hworker]; rfl)
        (fun conn => at_disturb hwrites) (fun j hj => stage_update _ hj) (fun _ _ => rfl)
        (.inl ⟨by rw [Function.update_self]; rfl, rfl⟩), hdrains.moves rfl Iff.rfl
        (List.suffix_refl _) fun j => update_exited (by simp)⟩
    · rename_i fd input hworker
      split at hstep
      · cases hstep
      · rename_i writes hwrites
        cases hstep
        -- the connection is not touched
        rw [← touch_id s fd]
        exact ⟨items, hsettled, hinv.workerMoves (by rw [hworker]; rfl)
          (fun conn hconn => at_respond hconn hwrites) (fun j hj => stage_update _ hj)
          (fun _ _ => rfl) (.inl ⟨by rw [Function.update_self]; rfl, rfl⟩), hdrains.moves rfl
          Iff.rfl (List.suffix_refl _) fun j => update_exited (by simp)⟩
    · cases hstep
  | write i taken =>
    simp only [serverStep] at hstep
    split at hstep
    · rename_i fd chunk rest hworker
      cases hstep
      exact ⟨items, hsettled, hinv.workerMoves (by rw [hworker]; rfl) (fun conn => at_write taken)
        (fun j hj => stage_update _ hj) (fun _ _ => rfl)
        (.inl ⟨by rw [Function.update_self]; rfl, rfl⟩), hdrains.moves rfl Iff.rfl
        (List.suffix_refl _) fun j => update_exited (by simp)⟩
    · cases hstep
  | close i =>
    simp only [serverStep] at hstep
    split at hstep
    · rename_i fd hworker
      cases hstep
      exact ⟨items, hsettled, hinv.workerMoves (by rw [hworker]; rfl) (fun conn => at_close)
        (fun j hj => stage_update _ hj) (fun fd' hfd => Function.update_of_ne hfd _ _)
        (.inr ⟨by rw [Function.update_self]; rfl, Function.update_self .., rfl⟩),
        hdrains.moves rfl Iff.rfl (List.suffix_refl _) fun j => update_exited (by simp)⟩
    · cases hstep

/-! ## Runs -/

/-- An enqueue finds room in the ring. -/
def HasRoom (s : Server n) (_ : Event n) : Prop := s.queue.size < initialCapacity

instance (s : Server n) (event : Event n) : Decidable (HasRoom s event) :=
  inferInstanceAs (Decidable (s.queue.size < initialCapacity))

variable {events : List (Event n)}

theorem run_reached (h : Run (Guarded HasRoom (ServerStep middlewares)) (serverStart n) events s) :
    Reached middlewares s :=
  Run.invariant (reached_start n)
    (fun _ _ _ hreached hstep => serverStep_reached hreached hstep.1 hstep.2) h

/-- A connection is at some stage. -/
theorem Inv.at_stage (h : Inv middlewares s items) {c : ℕ} {conn : Connection}
    (hconn : s.connections[c]? = some conn) :
    conn.At middlewares .closed ∨ ∃ fd stage, s.fds fd = some c ∧ conn.At middlewares stage ∧
      ((fd ∈ waiting s.owner items ∧ stage = .queued) ∨ ∃ i, (s.workers i).stage = some (fd, stage)) := by
  refine (h.closed_or_open c conn hconn).imp id ?_
  rintro ⟨fd, hfd⟩
  have hown : ∀ stage, s.At middlewares fd stage → conn.At middlewares stage := by
    rintro stage ⟨d, own, hd, hown, hstage⟩
    obtain rfl : d = c := Option.some.inj (hd.symm.trans hfd)
    obtain rfl : own = conn := Option.some.inj (hown.symm.trans hconn)
    exact hstage
  obtain hwaits | ⟨i, stage, hi⟩ := h.held fd c hfd
  · exact ⟨fd, .queued, hfd, hown _ (h.waiting_at fd hwaits), .inl ⟨hwaits, rfl⟩⟩
  · exact ⟨fd, stage, hfd, hown _ (h.worker_at i fd stage hi), .inr ⟨i, hi⟩⟩

/-- One worker reads a request, behind a `/rename` in the chat. -/
def readEvents : List (Event 1) :=
  [.accept 5, .push, .take (Fin.last 0), .rename, .read (Fin.last 0) oneHeader.text]

/-- The run up to the read. -/
def readRun (middlewares : List Middleware) : Option (Server 1) :=
  readEvents.foldlM
    (fun s event => if HasRoom s event then serverStep middlewares s event else none)
    (serverStart 1)

/-- The run from a response with one write on. -/
def writeRun (middlewares : List Middleware) (chunk : List UInt8) (events : List (Event 1))
    (s : Server 1) : Option (Server 1) :=
  events.foldlM
    (fun s event => if HasRoom s event then serverStep middlewares s event else none)
    { s with workers := Function.update s.workers (Fin.last 0) (.writing 5 [chunk]) }

/-- A response that nobody has disturbed. -/
theorem respond_step {i : Fin n} {fd : Fd} {input : List UInt8} {surroundings : Surroundings}
    {writes : List (List UInt8)} (hworker : s.workers i = .computing fd input false)
    (hclient : handleClient middlewares surroundings input = .ok writes)
    (others : List (List UInt8)) :
    ServerStep middlewares s (.respond i surroundings others)
      { s with workers := Function.update s.workers i (.writing fd writes) } := by
  simp only [ServerStep, serverStep, hworker, hclient]

theorem response_run {surroundings : Surroundings} {chunk : List UInt8} {events : List (Event 1)}
    {t : Server 1} (hchunk : handleClient middlewares surroundings oneHeader.text = .ok [chunk])
    (hread : (readRun middlewares).map (fun s => (s.workers 0, s.queue.size)) =
      some (.computing 5 oneHeader.text false, 0))
    (hwrite : (readRun middlewares).bind (writeRun middlewares chunk events) = some t) :
    Run (Guarded HasRoom (ServerStep middlewares)) (serverStart 1)
      (readEvents ++ .respond 0 surroundings [] :: events) t := by
  obtain ⟨s, hs, hst⟩ := Option.bind_eq_some_iff.mp hwrite
  rw [hs] at hread
  obtain ⟨hworker, hsize⟩ := Prod.mk.inj (Option.some.inj hread)
  have hrespond := respond_step hworker hchunk []
  have hroom : HasRoom s (.respond 0 surroundings []) := by
    unfold HasRoom
    rw [hsize]
    decide
  rw [List.append_cons]
  exact ((Run.of_guarded_foldlM hs).snoc ⟨hroom, hrespond⟩).append (Run.of_guarded_foldlM hst)

/-- The worker sends a part of the response. The descriptor that it closes is given again, and
the signal comes before it is pushed. -/
def closeEvents : List (Event 1) :=
  [.write (Fin.last 0) 10, .close (Fin.last 0), .accept 5, .stop, .sentinel, .take (Fin.last 0)]

/-- What `handle_client` writes without a middleware. -/
def emptyResponse : List UInt8 :=
  bytes "HTTP/1.1 200 OK\r\nContent-Length: 0\r\n\r\n"

theorem handleClient_oneHeader (surroundings : Surroundings) :
    handleClient [] surroundings oneHeader.text = .ok [emptyResponse] := by
  rw [handleClient_of_parse (oneHeader.requestParse_text (by decide) (by decide))]
  rfl

/-- What the two connections have seen: the second one is not closed. -/
def reused : List Connection :=
  [{ received := [oneHeader.text], sent := [emptyResponse.take 10], closes := 1
     disturbed := false },
    Connection.accepted]

theorem reuse_run (surroundings : Surroundings) :
    ∃ s, Run (Guarded HasRoom (ServerStep [])) (serverStart 1)
        (readEvents ++ .respond 0 surroundings [] :: closeEvents) s ∧
      s.connections = reused ∧ s.owner = .stopping (some 5) ∧ ∀ i, s.workers i = .exited := by
  have hclose : ((readRun []).bind (writeRun [] emptyResponse closeEvents)).map
        (fun t => (t.connections, t.owner, t.workers 0)) =
      some (reused, .stopping (some 5), .exited) := by decide +kernel
  obtain ⟨t, ht, hlast⟩ := Option.map_eq_some_iff.mp hclose
  obtain ⟨hconnections, hrest⟩ := Prod.mk.inj hlast
  obtain ⟨howner, hexited⟩ := Prod.mk.inj hrest
  refine ⟨t, response_run (handleClient_oneHeader surroundings) (by decide +kernel) ht,
    hconnections, howner, fun i => ?_⟩
  rw [Fin.fin_one_eq_zero i]
  exact hexited

end Invariant

end NetworkServers.HttpServer
