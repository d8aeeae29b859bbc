import NetworkServers.Library.Runs

/-!
# The Thread Pool

Translation of `src/src/pool.c` with one owner thread and `n` workers. The queue
is an ideal blocking FIFO: `safe_queue_enqueue` and `safe_queue_dequeue` are
atomic, and a dequeue waits while the queue is empty. An item is a `void*`:
`none` is `NULL`, which `thread_pool_destroy` enqueues once for every worker.

Every thread is deterministic, so the pool is a step function with the moving
thread as an argument; an interleaving is a sequence of threads. The debug output
of the source has no effect on the pool and is left out.
-/

namespace NetworkServers.Pool

open NetworkServers.Runs

/-- Where a worker stands in the loop of `thread_pool_worker`. -/
inductive WorkerState (τ : Type) where
  /-- In `safe_queue_dequeue`. -/
  | dequeuing
  /-- The dequeue has returned `item`; the test against `NULL` and `running` is next. -/
  | testing (item : Option τ)
  /-- Inside the call `pool->worker(item)`. -/
  | working (item : Option τ)
  /-- Returned from `thread_pool_worker`. -/
  | exited
deriving DecidableEq, Repr

/-- Where the owner stands. -/
inductive OwnerState (τ : Type) where
  /-- Before `thread_pool_push` of the first task of `rest`, or before
  `thread_pool_destroy` when none is left. -/
  | pushing (rest : List τ)
  /-- In `thread_pool_push`, after it has read `running` as true. -/
  | enqueuing (task : τ) (rest : List τ)
  /-- In the first loop of `thread_pool_destroy`, `i` sentinels enqueued. -/
  | stopping (i : ℕ)
  /-- In the second loop of `thread_pool_destroy`, `i` workers joined. -/
  | joining (i : ℕ)
  /-- Past both loops. -/
  | joined
deriving DecidableEq, Repr

/-- `struct ThreadPool` with the program counters of its threads. `finished` lists
the items of the calls of the worker function that have returned. -/
structure ThreadPool (n : ℕ) (τ : Type) where
  queue : List (Option τ)
  running : Bool
  workers : Fin n → WorkerState τ
  owner : OwnerState τ
  finished : List (Option τ)

variable {n : ℕ} {τ : Type}

/-- `thread_pool_create`, with the tasks that the owner is going to push. -/
def threadPoolCreate (n : ℕ) (tasks : List τ) : ThreadPool n τ where
  queue := []
  running := true
  workers := fun _ => .dequeuing
  owner := .pushing tasks
  finished := []

/-- One step of the owner: `thread_pool_push` and `thread_pool_destroy`. -/
def ownerStep (s : ThreadPool n τ) : Option (ThreadPool n τ) :=
  match s.owner with
  | .pushing (task :: rest) =>
    if s.running then some { s with owner := .enqueuing task rest }
    else some { s with owner := .pushing rest }
  | .enqueuing task rest =>
    some { s with queue := s.queue ++ [some task], owner := .pushing rest }
  | .pushing [] => some { s with running := false, owner := .stopping 0 }
  | .stopping i =>
    if i < n then some { s with queue := s.queue ++ [none], owner := .stopping (i + 1) }
    else some { s with owner := .joining 0 }
  | .joining i =>
    if h : i < n then
      -- pthread_join waits for the worker
      match s.workers ⟨i, h⟩ with
      | .exited => some { s with owner := .joining (i + 1) }
      | _ => none
    else some { s with owner := .joined }
  | .joined => none

/-- One step of worker `i`: `thread_pool_worker`. -/
def workerStep (s : ThreadPool n τ) (i : Fin n) : Option (ThreadPool n τ) :=
  match s.workers i with
  | .dequeuing =>
    match s.queue with
    | [] => none
    | item :: queue =>
      some { s with queue := queue, workers := Function.update s.workers i (.testing item) }
  | .testing item =>
    if item.isNone ∧ ¬ s.running then
      some { s with workers := Function.update s.workers i .exited }
    else some { s with workers := Function.update s.workers i (.working item) }
  | .working item =>
    some { s with
      workers := Function.update s.workers i .dequeuing
      finished := s.finished ++ [item] }
  | .exited => none

/-- The threads of the program. -/
inductive Thread (n : ℕ) where
  | owner
  | worker (i : Fin n)
deriving DecidableEq, Repr

/-- One step of the given thread, if it can move. -/
def threadStep (s : ThreadPool n τ) : Thread n → Option (ThreadPool n τ)
  | .owner => ownerStep s
  | .worker i => workerStep s i

/-- The step relation of the pool. -/
def Step (s : ThreadPool n τ) (thread : Thread n) (t : ThreadPool n τ) : Prop :=
  threadStep s thread = some t

/-! ## What a step can do -/

/-- The owner's steps. -/
theorem ownerStep_cases {s t : ThreadPool n τ} (h : ownerStep s = some t) :
    (∃ task rest, s.owner = .pushing (task :: rest) ∧ s.running = true ∧
      t = { s with owner := .enqueuing task rest }) ∨
    (∃ task rest, s.owner = .pushing (task :: rest) ∧ s.running = false ∧
      t = { s with owner := .pushing rest }) ∨
    (∃ task rest, s.owner = .enqueuing task rest ∧
      t = { s with queue := s.queue ++ [some task], owner := .pushing rest }) ∨
    (s.owner = .pushing [] ∧ t = { s with running := false, owner := .stopping 0 }) ∨
    (∃ i, s.owner = .stopping i ∧ i < n ∧
      t = { s with queue := s.queue ++ [none], owner := .stopping (i + 1) }) ∨
    (∃ i, s.owner = .stopping i ∧ n ≤ i ∧ t = { s with owner := .joining 0 }) ∨
    (∃ i, ∃ h : i < n, s.owner = .joining i ∧ s.workers ⟨i, h⟩ = .exited ∧
      t = { s with owner := .joining (i + 1) }) ∨
    (∃ i, s.owner = .joining i ∧ n ≤ i ∧ t = { s with owner := .joined }) := by
  unfold ownerStep at h
  split at h <;> grind

/-- The steps of worker `i`. -/
theorem workerStep_cases {s t : ThreadPool n τ} {i : Fin n} (h : workerStep s i = some t) :
    (∃ item queue, s.workers i = .dequeuing ∧ s.queue = item :: queue ∧
      t = { s with queue := queue, workers := Function.update s.workers i (.testing item) }) ∨
    (s.workers i = .testing none ∧ s.running = false ∧
      t = { s with workers := Function.update s.workers i .exited }) ∨
    (∃ item, s.workers i = .testing item ∧ (item = none → s.running = true) ∧
      t = { s with workers := Function.update s.workers i (.working item) }) ∨
    (∃ item, s.workers i = .working item ∧
      t = { s with
        workers := Function.update s.workers i .dequeuing
        finished := s.finished ++ [item] }) := by
  unfold workerStep at h
  cases hw : s.workers i with
  | dequeuing => grind
  | testing item =>
    simp only [hw] at h
    split at h
    · rename_i hstop
      obtain rfl : item = none := Option.isNone_iff_eq_none.mp hstop.1
      exact .inr (.inl ⟨rfl, by simpa using hstop.2, (Option.some.inj h).symm⟩)
    · rename_i hgo
      refine .inr (.inr (.inl ⟨item, rfl, fun hnone => ?_, (Option.some.inj h).symm⟩))
      subst hnone
      simpa using hgo
  | working item => grind
  | exited => grind

end NetworkServers.Pool
