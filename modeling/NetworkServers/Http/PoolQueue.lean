import NetworkServers.Http.PoolDrain
import NetworkServers.Http.QueueFifo

/-!
# The Thread Pool on Its Queue

The thread pool with the ring buffer of `src/src/queue.c` in place of an ideal queue. The
owner runs `safe_queue_enqueue` in the steps that others can come between: the test for a full
ring, which takes no mutex, the resize, and the section under the mutex. A dequeue is one
section under the mutex, and waits outside of it.

As long as at most 32 items are queued, the pool on the ring refines the ideal pool, so it is
drained on shutdown. When a dequeue leaves 32 items, a quarter of the ring is left, the queue
shrinks under a mutex that its thread holds already, and the pool stands still. So the pool is
safe if and only if tasks and workers together are at most 32.
-/

namespace NetworkServers.Pool

open NetworkServers.Machine NetworkServers.Queue NetworkServers.Runs

variable {n : ℕ} {τ : Type}

/-! ## The pool on the ring -/

/-- The ways in which a thread of the pool does not go on. -/
inductive PoolFault where
  /-- A call of the queue does not return. -/
  | queue (fault : Queue.Fault)
  /-- A dequeue returns a slot that nobody has written. -/
  | unwritten
deriving DecidableEq, Repr

/-- `struct ThreadPool` with its `SafeQueue` and the program counters of its threads. -/
structure QueuedPool (n : ℕ) (τ : Type) where
  queue : SafeQueue (Option τ)
  /-- What the owner has read in the test of `safe_queue_enqueue`, if it stands behind it. -/
  full : Option Bool
  running : Bool
  workers : Fin n → WorkerState τ
  owner : OwnerState τ
  finished : List (Option τ)

/-- `thread_pool_create`, with the tasks that the owner is going to push. -/
def queuedPoolCreate (n : ℕ) (tasks : List τ) : QueuedPool n τ where
  queue := safeQueueCreate
  full := none
  running := true
  workers := fun _ => .dequeuing
  owner := .pushing tasks
  finished := []

/-- The thread of the owner. -/
def ownerId : ThreadId := 0

/-- The thread of a worker. -/
def workerId (i : Fin n) : ThreadId := i + 1

/-- The section of `safe_queue_enqueue` under the mutex. -/
def enqueueSection (self : ThreadId) (q : SafeQueue (Option τ)) (item : Option τ) :
    Except Queue.Fault (SafeQueue (Option τ)) := do
  let m ← mutexLock .normal self q.mutex
  let q ← enqueueBody { q with mutex := m } item
  return { q with mutex := mutexUnlock q.mutex }

/-- One step of the owner in `safe_queue_enqueue`, after which it stands at `next`. -/
def enqueueMove (s : QueuedPool n τ) (item : Option τ) (next : OwnerState τ) :
    Except Queue.Fault (QueuedPool n τ) :=
  match s.full with
  | none => return { s with full := some (s.queue.size = s.queue.capacity) }
  | some true => do
    let q ← safeQueueResize .normal ownerId s.queue (s.queue.capacity * 2)
    return { s with queue := q, full := some false }
  | some false => do
    let q ← enqueueSection ownerId s.queue item
    return { s with queue := q, full := none, owner := next }

/-- One step of the owner, if it can move. -/
def queuedOwnerStep (s : QueuedPool n τ) : Option (Except PoolFault (QueuedPool n τ)) :=
  match s.owner with
  | .pushing (task :: rest) =>
    if s.running then some (.ok { s with owner := .enqueuing task rest })
    else some (.ok { s with owner := .pushing rest })
  | .enqueuing task rest => some ((enqueueMove s (some task) (.pushing rest)).mapError .queue)
  | .pushing [] => some (.ok { s with running := false, owner := .stopping 0 })
  | .stopping i =>
    if i < n then some ((enqueueMove s none (.stopping (i + 1))).mapError .queue)
    else some (.ok { s with owner := .joining 0 })
  | .joining i =>
    if h : i < n then
      match s.workers ⟨i, h⟩ with
      | .exited => some (.ok { s with owner := .joining (i + 1) })
      | _ => none
    else some (.ok { s with owner := .joined })
  | .joined => none

/-- One step of worker `i`, if it can move. -/
def queuedWorkerStep (s : QueuedPool n τ) (i : Fin n) :
    Option (Except PoolFault (QueuedPool n τ)) :=
  match s.workers i with
  | .dequeuing =>
    match safeQueueDequeue .normal (workerId i) s.queue with
    | .error .blocked => none
    | .error fault => some (.error (.queue fault))
    | .ok (none, _) => some (.error .unwritten)
    | .ok (some item, q) =>
      some (.ok { s with queue := q, workers := Function.update s.workers i (.testing item) })
  | .testing item =>
    if item.isNone ∧ ¬ s.running then
      some (.ok { s with workers := Function.update s.workers i .exited })
    else some (.ok { s with workers := Function.update s.workers i (.working item) })
  | .working item =>
    some (.ok { s with
      workers := Function.update s.workers i .dequeuing
      finished := s.finished ++ [item] })
  | .exited => none

/-- One step of the given thread, if it can move. -/
def queuedStep (s : QueuedPool n τ) : Thread n → Option (Except PoolFault (QueuedPool n τ))
  | .owner => queuedOwnerStep s
  | .worker i => queuedWorkerStep s i

/-- The steps that do not end in a fault. -/
def QueuedStep (s : QueuedPool n τ) (thread : Thread n) (t : QueuedPool n τ) : Prop :=
  queuedStep s thread = some (.ok t)

/-- The run of the pool on a list of threads, each of which can move. -/
theorem run_of_foldlM {threads : List (Thread n)} {s t : QueuedPool n τ}
    (h : threads.foldlM (fun s thread => (queuedStep s thread).bind Except.toOption) s = some t) :
    Run QueuedStep s threads t := by
  refine (Run.of_foldlM h).mono fun s thread t hstep => ?_
  obtain ⟨out, hout, hok⟩ := Option.bind_eq_some_iff.mp hstep
  cases out with
  | error fault => cases hok
  | ok u =>
    obtain rfl : u = t := Option.some.inj hok
    exact hout

/-! ## What a step can do -/

/-- The items that a ring may hold without a dequeue that shrinks it. -/
def quarter : ℕ := initialCapacity / 4

/-- The ring as it is between the steps while it has its first capacity. -/
structure Settled (q : SafeQueue (Option τ)) (items : List (Option τ)) : Prop where
  represents : Represents q items
  mutex : q.mutex = Mutex.free
  capacity : q.capacity = initialCapacity

section Sections

variable {q : SafeQueue (Option τ)} {items : List (Option τ)} {item : Option τ}

theorem Settled.size_eq (h : Settled q items) : q.size = items.length := h.represents.size_eq

theorem settled_create : Settled (safeQueueCreate : SafeQueue (Option τ)) [] :=
  ⟨represents_create, rfl, rfl⟩

/-- The section of an enqueue appends, while there is room. -/
theorem Settled.enqueue (h : Settled q items) (self : ThreadId)
    (hroom : items.length < initialCapacity) (item : Option τ) :
    ∃ q', enqueueSection self q item = .ok q' ∧ Settled q' (items ++ [item]) := by
  have hnotFull : q.size < q.capacity := by
    rw [h.size_eq, h.capacity]
    exact hroom
  have hheld := h.represents.withMutex (heldBy self 1)
  obtain ⟨q', hbody, hrepresents, hmutex⟩ := enqueueBody_represents hheld hnotFull item
  obtain ⟨q'', hbody', -, -, hcapacity, -⟩ :=
    enqueueBody_wellFormed hheld.wellFormed hnotFull item
  obtain rfl : q' = q'' := Except.ok.inj (hbody.symm.trans hbody')
  refine ⟨{ q' with mutex := Mutex.free }, ?_, hrepresents.withMutex _, rfl,
    hcapacity.trans h.capacity⟩
  simp only [heldBy] at hbody hmutex
  simp only [enqueueSection, h.mutex, mutexLock_free, ok_bind, hbody, hmutex, mutexUnlock_one]
  rfl

/-- A dequeue takes the oldest item, unless a quarter of the ring is left. -/
theorem Settled.dequeue (h : Settled q (item :: items)) (self : ThreadId)
    (hquarter : items.length ≠ quarter) :
    ∃ q', safeQueueDequeue .normal self q = .ok (some item, q') ∧ Settled q' items := by
  have hpos : q.size ≠ 0 := by
    rw [h.size_eq]
    exact Nat.succ_ne_zero _
  obtain ⟨q', htake, hrepresents, -, hcapacity, hmutex⟩ :=
    takeFront_represents (h.represents.withMutex (heldBy self 1))
  have hcapacity' : q'.capacity = initialCapacity := hcapacity.trans h.capacity
  have hnotDue : ¬ ShrinkDue q'.size q'.capacity := by
    rintro ⟨-, hdue⟩
    rw [hrepresents.size_eq, hcapacity'] at hdue
    exact hquarter hdue
  exact ⟨_, safeQueueDequeue_of_not_shrink h.mutex hpos htake hmutex hnotDue,
    hrepresents.withMutex _, rfl, hcapacity'⟩

/-- With a quarter of the ring left, it does not return. -/
theorem Settled.dequeue_relock (h : Settled q (item :: items)) (self : ThreadId)
    (hquarter : items.length = quarter) : safeQueueDequeue .normal self q = .error .relock := by
  have hsize : q.size = quarter + 1 := by rw [h.size_eq, List.length_cons, hquarter]
  apply safeQueueDequeue_shrinkDue self h.represents.wellFormed h.mutex
  · rw [hsize]
    exact Nat.succ_ne_zero _
  · rw [hsize, h.capacity]
    decide

theorem Settled.dequeue_nil (h : Settled q []) (self : ThreadId) :
    safeQueueDequeue .normal self q = .error .blocked := by
  simp [safeQueueDequeue, h.mutex, h.size_eq]

end Sections

/-! ## The ideal pool -/

/-- The pool on the ring stands where the ideal pool `a` does. -/
structure Refines (s : QueuedPool n τ) (a : ThreadPool n τ) : Prop where
  settled : Settled s.queue a.queue
  notFull : s.full ≠ some true
  running : s.running = a.running
  workers : s.workers = a.workers
  owner : s.owner = a.owner
  finished : s.finished = a.finished

/-- A thread of the pool on the ring makes the step of the ideal pool, or a step that the ideal
pool does not see, or waits where the thread of the ideal pool does. -/
def Follows (s : QueuedPool n τ) (a : ThreadPool n τ) (thread : Thread n) : Prop :=
  (∃ t, queuedStep s thread = some (.ok t) ∧ (Refines t a ∨ ∃ b, Step a thread b ∧ Refines t b)) ∨
    (queuedStep s thread = none ∧ threadStep a thread = none)

theorem refines_create (tasks : List τ) :
    Refines (queuedPoolCreate n tasks) (threadPoolCreate n tasks) :=
  ⟨settled_create, by simp [queuedPoolCreate], rfl, rfl, rfl, rfl⟩

section Simulation

variable {s : QueuedPool n τ} {a : ThreadPool n τ}

/-- An enqueue of the owner: the test, which finds room, or the section. -/
theorem Refines.enqueueMove (h : Refines s a) (hroom : a.queue.length < initialCapacity)
    (item : Option τ) (next : OwnerState τ) :
    ∃ t, enqueueMove s item next = .ok t ∧
      (Refines t a ∨ Refines t { a with queue := a.queue ++ [item], owner := next }) := by
  cases hfull : s.full with
  | none =>
    refine ⟨{ s with full := some false }, ?_, .inl ⟨h.settled, by simp, h.running, h.workers,
      h.owner, h.finished⟩⟩
    have hne : s.queue.size ≠ s.queue.capacity := by
      rw [h.settled.size_eq, h.settled.capacity]
      exact hroom.ne
    simp only [Pool.enqueueMove, hfull, decide_eq_false hne]
    rfl
  | some full =>
    cases full with
    | true => exact absurd hfull h.notFull
    | false =>
      obtain ⟨q, hsection, hsettled⟩ := h.settled.enqueue ownerId hroom item
      refine ⟨{ s with queue := q, full := none, owner := next }, ?_, .inr ⟨hsettled, by simp,
        h.running, h.workers, rfl, h.finished⟩⟩
      simp only [Pool.enqueueMove, hfull, hsection, ok_bind]
      rfl

/-- A step of the owner that leaves the queue alone. -/
theorem Refines.owner_follows (h : Refines s a) (running : Bool) (owner : OwnerState τ)
    (hs : queuedOwnerStep s = some (.ok { s with running := running, owner := owner }))
    (ha : ownerStep a = some { a with running := running, owner := owner }) :
    Follows s a .owner :=
  .inl ⟨_, hs, .inr ⟨_, ha, h.settled, h.notFull, rfl, h.workers, rfl, h.finished⟩⟩

/-- A step of a worker that leaves the queue alone. -/
theorem Refines.worker_follows (h : Refines s a) {i : Fin n} (w : WorkerState τ)
    (finished : List (Option τ))
    (hs : queuedWorkerStep s i = some (.ok { s with
      workers := Function.update s.workers i w
      finished := s.finished ++ finished }))
    (ha : workerStep a i = some { a with
      workers := Function.update a.workers i w
      finished := a.finished ++ finished }) :
    Follows s a (.worker i) :=
  .inl ⟨_, hs, .inr ⟨_, ha, h.settled, h.notFull, h.running, by rw [h.workers], h.owner,
    by rw [h.finished]⟩⟩

/-- The owner follows the ideal owner. -/
theorem Refines.follows_owner (h : Refines s a) (hroom : a.queue.length < initialCapacity) :
    Follows s a .owner := by
  cases howner : a.owner with
  | pushing rest =>
    cases rest with
    | nil =>
      apply h.owner_follows false (.stopping 0)
      · simp [queuedOwnerStep, h.owner, howner]
      · simp [ownerStep, howner]
    | cons task rest =>
      cases hrunning : a.running with
      | true =>
        apply h.owner_follows true (.enqueuing task rest)
        · simp [queuedOwnerStep, h.owner, howner, h.running, hrunning]
        · simp [ownerStep, howner, hrunning]
      | false =>
        apply h.owner_follows false (.pushing rest)
        · simp [queuedOwnerStep, h.owner, howner, h.running, hrunning]
        · simp [ownerStep, howner, hrunning]
  | enqueuing task rest =>
    obtain ⟨t, hmove, hrefines⟩ := h.enqueueMove hroom (some task) (.pushing rest)
    refine .inl ⟨t, ?_, hrefines.imp id fun hnext => ⟨_, ?_, hnext⟩⟩
    · simp [queuedStep, queuedOwnerStep, h.owner, howner, hmove, Except.mapError]
    · simp [Step, threadStep, ownerStep, howner]
  | stopping i =>
    by_cases hi : i < n
    · obtain ⟨t, hmove, hrefines⟩ := h.enqueueMove hroom none (.stopping (i + 1))
      refine .inl ⟨t, ?_, hrefines.imp id fun hnext => ⟨_, ?_, hnext⟩⟩
      · simp [queuedStep, queuedOwnerStep, h.owner, howner, hi, hmove, Except.mapError]
      · simp [Step, threadStep, ownerStep, howner, hi]
    · apply h.owner_follows a.running (.joining 0)
      · simp [queuedOwnerStep, h.owner, howner, hi, ← h.running]
      · simp [ownerStep, howner, hi]
  | joining i =>
    by_cases hi : i < n
    · cases hworker : a.workers ⟨i, hi⟩ with
      | exited =>
        apply h.owner_follows a.running (.joining (i + 1))
        · simp [queuedOwnerStep, h.owner, howner, hi, h.workers, hworker, ← h.running]
        · simp [ownerStep, howner, hi, hworker]
      | dequeuing | testing | working =>
        exact .inr ⟨by simp [queuedStep, queuedOwnerStep, h.owner, howner, hi, h.workers, hworker],
          by simp [threadStep, ownerStep, howner, hi, hworker]⟩
    · apply h.owner_follows a.running .joined
      · simp [queuedOwnerStep, h.owner, howner, hi, ← h.running]
      · simp [ownerStep, howner, hi]
  | joined =>
    exact .inr ⟨by simp [queuedStep, queuedOwnerStep, h.owner, howner],
      by simp [threadStep, ownerStep, howner]⟩

/-- A worker follows the ideal worker, while no dequeue leaves a quarter of the ring. -/
theorem Refines.follows_worker (h : Refines s a) (hsmall : a.queue.length ≤ quarter)
    (i : Fin n) : Follows s a (.worker i) := by
  cases hworker : a.workers i with
  | dequeuing =>
    have hs : s.workers i = .dequeuing := by rw [h.workers, hworker]
    cases hqueue : a.queue with
    | nil =>
      have hblocked := Settled.dequeue_nil (hqueue ▸ h.settled) (workerId i)
      exact .inr ⟨by simp [queuedStep, queuedWorkerStep, hs, hblocked],
        by simp [threadStep, workerStep, hworker, hqueue]⟩
    | cons item items =>
      rw [hqueue] at hsmall
      obtain ⟨q, hdequeue, hsettled⟩ := Settled.dequeue (hqueue ▸ h.settled) (workerId i)
        (Nat.ne_of_lt hsmall)
      refine .inl ⟨{ s with
        queue := q
        workers := Function.update s.workers i (.testing item) }, ?_,
        .inr ⟨{ a with
          queue := items
          workers := Function.update a.workers i (.testing item) }, ?_,
          ⟨hsettled, h.notFull, h.running, by rw [h.workers], h.owner, h.finished⟩⟩⟩
      · simp [queuedStep, queuedWorkerStep, hs, hdequeue]
      · simp [Step, threadStep, workerStep, hworker, hqueue]
  | testing item =>
    have hs : s.workers i = .testing item := by rw [h.workers, hworker]
    by_cases hstop : item.isNone ∧ ¬ a.running
    · apply h.worker_follows .exited []
      · simp only [queuedWorkerStep, hs, h.running, if_pos hstop, List.append_nil]
      · simp only [workerStep, hworker, if_pos hstop, List.append_nil]
    · apply h.worker_follows (.working item) []
      · simp only [queuedWorkerStep, hs, h.running, if_neg hstop, List.append_nil]
      · simp only [workerStep, hworker, if_neg hstop, List.append_nil]
  | working item =>
    apply h.worker_follows .dequeuing [item]
    · simp [queuedWorkerStep, h.workers, hworker]
    · simp [workerStep, hworker]
  | exited =>
    exact .inr ⟨by simp [queuedStep, queuedWorkerStep, h.workers, hworker],
      by simp [threadStep, workerStep, hworker]⟩

/-- **Simulation**: while at most a quarter of the ring is queued, every thread follows. -/
theorem Refines.follows (h : Refines s a) (hsmall : a.queue.length ≤ quarter) (thread : Thread n) :
    Follows s a thread := by
  cases thread with
  | owner => exact h.follows_owner (hsmall.trans_lt (by decide))
  | worker i => exact h.follows_worker hsmall i

end Simulation

/-! ## Runs with a quarter of the ring -/

/-- The steps after which at most a quarter of the ring is queued. -/
def QuarterStep (s : QueuedPool n τ) (thread : Thread n) (t : QueuedPool n τ) : Prop :=
  QueuedStep s thread t ∧ t.queue.size ≤ quarter

section Runs

variable {tasks : List τ} {s : QueuedPool n τ} {a : ThreadPool n τ} {threads : List (Thread n)}

/-- The ideal pool can make every step that is made. -/
theorem Refines.step (h : Refines s a) (hsmall : a.queue.length ≤ quarter) {thread : Thread n}
    {t : QueuedPool n τ} (hstep : QueuedStep s thread t) :
    ∃ ls b, Run Step a ls b ∧ Refines t b := by
  obtain ⟨t', ht', hrefines⟩ | ⟨hnone, -⟩ := h.follows hsmall thread
  · obtain rfl : t' = t := by simpa using ht'.symm.trans hstep
    obtain hstays | ⟨b, hb, hmoves⟩ := hrefines
    · exact ⟨[], a, Run.nil, hstays⟩
    · exact ⟨[thread], b, Run.single hb, hmoves⟩
  · simp [QueuedStep, hnone] at hstep

/-- **Refinement**: a run in which at most a quarter of the ring is queued is a run of the
ideal pool. -/
theorem quarterRun_refines (h : Run QuarterStep (queuedPoolCreate n tasks) threads s) :
    ∃ ls a, Run Step (threadPoolCreate n tasks) ls a ∧ Refines s a ∧
      a.queue.length ≤ quarter := by
  let R : QueuedPool n τ → ThreadPool n τ → Prop := fun s a =>
    Refines s a ∧ a.queue.length ≤ quarter
  refine Run.simulates (show R _ _ from ⟨refines_create tasks, Nat.zero_le _⟩) ?_ h
  rintro s thread t a ⟨hrefines, hsmall⟩ ⟨hstep, hsize⟩
  obtain ⟨ls, b, hrun, hrefines'⟩ := hrefines.step hsmall hstep
  rw [hrefines'.settled.size_eq] at hsize
  exact ⟨ls, b, hrun, hrefines', hsize⟩

/-- No thread that follows ends in a fault. -/
theorem Refines.no_fault (h : Refines s a) (hsmall : a.queue.length ≤ quarter)
    (thread : Thread n) (fault : PoolFault) : queuedStep s thread ≠ some (.error fault) := by
  obtain ⟨t, ht, -⟩ | ⟨hnone, -⟩ := h.follows hsmall thread
  · simp [ht]
  · simp [hnone]

/-- A thread that can move in the ideal pool can move on the ring. -/
theorem Refines.moves (h : Refines s a) (hsmall : a.queue.length ≤ quarter) {thread : Thread n}
    {b : ThreadPool n τ} (hstep : Step a thread b) : ∃ t, QueuedStep s thread t := by
  obtain ⟨t, ht, -⟩ | ⟨-, hnone⟩ := h.follows hsmall thread
  · exact ⟨t, ht⟩
  · simp [Step, hnone] at hstep

end Runs

/-! ## Every run ends -/

/-- The steps of an enqueue from where the owner stands in it. -/
def enqueueWork : Option Bool → ℕ
  | none => 3
  | some true => 2
  | some false => 1

/-- The steps that the owner makes, and three for each item that it enqueues. -/
def ownerWork (n : ℕ) (full : Option Bool) : OwnerState τ → ℕ
  | .pushing rest => 7 * rest.length + 7 * n + 3
  | .enqueuing _ rest => enqueueWork full + 3 + (7 * rest.length + 7 * n + 3)
  | .stopping i => (if i < n then enqueueWork full + 3 + 6 * (n - i - 1) else 0) + n + 2
  | .joining i => n - i + 1
  | .joined => 0

/-- The steps that a worker makes before its next dequeue. -/
def workerWork : WorkerState τ → ℕ
  | .testing _ => 2
  | .working _ => 1
  | _ => 0

/-- A bound for the steps that the pool has still to make. -/
def remaining (s : QueuedPool n τ) : ℕ :=
  ownerWork n s.full s.owner + 3 * s.queue.size + ∑ i, workerWork (s.workers i)

theorem enqueueWork_le (full : Option Bool) : enqueueWork full ≤ 3 := by
  unfold enqueueWork
  split <;> omega

section Sizes

variable {q q' : SafeQueue (Option τ)} {self : ThreadId}

theorem safeQueueResize_size {capacity : ℕ}
    (h : safeQueueResize .normal self q capacity = .ok q') : q'.size = q.size := by
  obtain ⟨m, -, h⟩ := bind_eq_ok.mp h
  obtain ⟨r, hbody, h⟩ := bind_eq_ok.mp h
  obtain ⟨data, -, hbody⟩ := bind_eq_ok.mp hbody
  cases hbody
  cases h
  rfl

theorem enqueueSection_size {item : Option τ} (h : enqueueSection self q item = .ok q') :
    q'.size = q.size + 1 := by
  obtain ⟨m, -, h⟩ := bind_eq_ok.mp h
  obtain ⟨r, hbody, h⟩ := bind_eq_ok.mp h
  unfold enqueueBody at hbody
  split at hbody
  · cases hbody
    cases h
    rfl
  · cases hbody

theorem safeQueueDequeue_size {item : Option (Option τ)}
    (h : safeQueueDequeue .normal self q = .ok (item, q')) : q'.size + 1 = q.size := by
  obtain ⟨m, -, h⟩ := bind_eq_ok.mp h
  split at h
  · cases h
  · rename_i hpos
    obtain ⟨⟨taken, r⟩, htake, h⟩ := bind_eq_ok.mp h
    have hsize : q'.size = r.size := by
      dsimp only at h
      split at h
      · obtain ⟨r', hresize, h⟩ := bind_eq_ok.mp h
        have hresized : r'.size = r.size := safeQueueResize_size hresize
        cases h
        exact hresized
      · cases h
        rfl
    unfold takeFront at htake
    split at htake
    · cases htake
    · cases htake
      rw [hsize]
      exact Nat.succ_pred_eq_of_ne_zero hpos

end Sizes

section Termination

variable {s t : QueuedPool n τ}

/-- What one step of an enqueue does. -/
theorem enqueueMove_cases {item : Option τ} {next : OwnerState τ}
    (h : enqueueMove s item next = .ok t) :
    (s.full = none ∧ ∃ full, t = { s with full := some full }) ∨
    (s.full = some true ∧ ∃ q, q.size = s.queue.size ∧
      t = { s with queue := q, full := some false }) ∨
    (s.full = some false ∧ ∃ q, q.size = s.queue.size + 1 ∧
      t = { s with queue := q, full := none, owner := next }) := by
  unfold enqueueMove at h
  split at h
  · rename_i hfull
    cases h
    exact .inl ⟨hfull, _, rfl⟩
  · rename_i hfull
    obtain ⟨q, hresize, h⟩ := bind_eq_ok.mp h
    cases h
    exact .inr (.inl ⟨hfull, q, safeQueueResize_size hresize, rfl⟩)
  · rename_i hfull
    obtain ⟨q, hsection, h⟩ := bind_eq_ok.mp h
    cases h
    exact .inr (.inr ⟨hfull, q, enqueueSection_size hsection, rfl⟩)

/-- A step of an enqueue leaves less to do, if the work of the enqueue is part of the owner's and
the next state has none of it. -/
theorem enqueueMove_remaining {item : Option τ} {next : OwnerState τ}
    (h : enqueueMove s item next = .ok t)
    (howner : ∀ full, ownerWork n full s.owner = enqueueWork full + 3 + ownerWork n none next) :
    remaining t < remaining s := by
  obtain ⟨hfull, full, rfl⟩ | ⟨hfull, q, hsize, rfl⟩ | ⟨hfull, q, hsize, rfl⟩ :=
    enqueueMove_cases h
  · have hle : enqueueWork (some full) < 3 := by cases full <;> decide
    simp only [remaining, howner, hfull]
    simp only [enqueueWork] at hle ⊢
    omega
  · simp only [remaining, howner, hfull, hsize, enqueueWork]
    omega
  · simp only [remaining, howner, hfull, hsize, enqueueWork]
    omega

theorem mapError_eq_ok {ε ε' α : Type} {x : Except ε α} {f : ε → ε'} {b : α}
    (h : x.mapError f = .ok b) : x = .ok b := by
  cases x with
  | error e => cases h
  | ok a => simpa [Except.mapError] using h

theorem queuedOwnerStep_remaining (h : queuedOwnerStep s = some (.ok t)) :
    remaining t < remaining s := by
  have hwork := enqueueWork_le s.full
  unfold queuedOwnerStep at h
  split at h
  · rename_i task rest howner
    split at h <;> cases h <;>
      simp only [remaining, howner, ownerWork, List.length_cons] <;> omega
  · rename_i task rest howner
    apply enqueueMove_remaining (mapError_eq_ok (Option.some.inj h))
    intro full
    rw [howner]
    rfl
  · rename_i howner
    cases h
    simp only [remaining, howner, ownerWork, List.length_nil]
    split <;> omega
  · rename_i i howner
    split at h
    · rename_i hi
      apply enqueueMove_remaining (mapError_eq_ok (Option.some.inj h))
      intro full
      have hnone : enqueueWork none = 3 := rfl
      simp only [howner, ownerWork, if_pos hi]
      split <;> omega
    · rename_i hi
      cases h
      simp only [remaining, howner, ownerWork, if_neg hi]
      omega
  · rename_i i howner
    split at h
    · rename_i hi
      split at h <;> cases h
      simp only [remaining, howner, ownerWork]
      omega
    · cases h
      simp only [remaining, howner, ownerWork]
      omega
  · cases h

/-- A worker's step leaves less to do, if the queue and the worker have less. -/
theorem workerMoves_remaining {i : Fin n} {w : WorkerState τ} {q : SafeQueue (Option τ)}
    {finished : List (Option τ)}
    (hless : 3 * q.size + workerWork w < 3 * s.queue.size + workerWork (s.workers i)) :
    remaining { s with
      queue := q
      workers := Function.update s.workers i w
      finished := finished } < remaining s := by
  have hsum := sum_update_add s.workers workerWork i w
  simp only [remaining]
  omega

theorem queuedWorkerStep_remaining {i : Fin n} (h : queuedWorkerStep s i = some (.ok t)) :
    remaining t < remaining s := by
  unfold queuedWorkerStep at h
  split at h
  · rename_i hworker
    split at h
    · cases h
    · cases h
    · cases h
    · rename_i item q hdequeue
      cases h
      have hsize := safeQueueDequeue_size hdequeue
      apply workerMoves_remaining
      simp only [hworker, workerWork]
      omega
  · rename_i item hworker
    split at h <;> cases h <;> exact workerMoves_remaining (by simp [hworker, workerWork])
  · rename_i item hworker
    cases h
    exact workerMoves_remaining (by simp [hworker, workerWork])
  · cases h

/-- Every step leaves less to do. -/
theorem queuedStep_remaining {thread : Thread n} (h : QueuedStep s thread t) :
    remaining t < remaining s := by
  cases thread with
  | owner => exact queuedOwnerStep_remaining h
  | worker i => exact queuedWorkerStep_remaining h

/-- A run is no longer than the work that is left at its start. -/
theorem run_length_le {threads : List (Thread n)} (h : Run QueuedStep s threads t) :
    threads.length + remaining t ≤ remaining s := by
  induction h with
  | nil => simp
  | snoc _ hlast ih =>
    have hless := queuedStep_remaining hlast
    simp only [List.length_append, List.length_singleton]
    omega

theorem remaining_create (tasks : List τ) :
    remaining (queuedPoolCreate n tasks) = 7 * (tasks.length + n) + 3 := by
  simp only [remaining, queuedPoolCreate, ownerWork, workerWork, safeQueueCreate,
    Finset.sum_const_zero]
  omega

end Termination

/-! ## The pool is drained -/

section Drain

variable {tasks : List τ} {s : QueuedPool n τ} {a : ThreadPool n τ} {threads : List (Thread n)}

/-- What holds where the ideal pool is simulated. -/
theorem Refines.drains (h : Refines s a) (hinv : Inv tasks a) (hn : 1 ≤ n)
    (hsmall : a.queue.length ≤ quarter) :
    (∀ thread fault, queuedStep s thread ≠ some (.error fault)) ∧
    (∀ i, s.workers i ≠ .working none) ∧
    (s.owner = .joined → s.finished.Perm (tasks.map some) ∧
      (∀ i, s.workers i = .exited) ∧ s.queue.size = 0) ∧
    (s.owner ≠ .joined → ∃ thread t, QueuedStep s thread t) := by
  refine ⟨h.no_fault hsmall, ?_, fun hjoined => ?_, fun hjoined => ?_⟩
  · rw [h.workers]
    exact hinv.never_null
  · obtain ⟨hfinished, hexited, hqueue⟩ := hinv.drained hn (h.owner ▸ hjoined)
    refine ⟨h.finished ▸ hfinished, h.workers ▸ hexited, ?_⟩
    rw [h.settled.size_eq, hqueue]
    rfl
  · obtain ⟨thread, b, hstep⟩ := hinv.progress (h.owner ▸ hjoined)
    exact ⟨thread, h.moves hsmall hstep⟩

/-! ## Pools that cannot fill a quarter of the ring -/

/-- The ideal queue never holds more than the tasks and one sentinel for each worker. -/
theorem Counts.queue_length_le (h : Counts tasks a) : a.queue.length ≤ tasks.length + n := by
  have htasks := congrArg Multiset.card h.tasks_eq
  simp only [Multiset.card_add, Multiset.coe_card, List.length_map] at htasks
  have hsent : sentinelsSent n a.owner ≤ n := by
    unfold sentinelsSent
    split <;> first | omega | exact h.stopping_le _ (by assumption)
  have hsplit := List.length_eq_countP_add_countP Option.isSome (l := a.queue)
  have hnone : a.queue.countP (fun item => decide ¬ item.isSome = true) =
      a.queue.countP Option.isNone := by
    congr 1
    funext item
    cases item <;> rfl
  have hsentinels := h.sentinels_eq
  rw [hnone, List.countP_eq_length_filter] at hsplit
  omega

/-- Along the runs of such a pool at most a quarter of the ring is queued. -/
theorem run_refines (hfew : tasks.length + n ≤ quarter)
    (h : Run QueuedStep (queuedPoolCreate n tasks) threads s) :
    ∃ a, Inv tasks a ∧ Refines s a ∧ a.queue.length ≤ quarter := by
  let R : QueuedPool n τ → Prop := fun s => ∃ a, Inv tasks a ∧ Refines s a
  have hfollow : R s := by
    refine Run.invariant (show R _ from ⟨_, inv_create tasks, refines_create tasks⟩) ?_ h
    rintro t thread u ⟨a, hinv, hrefines⟩ hstep
    have hsmall := hinv.toCounts.queue_length_le.trans hfew
    obtain ⟨ls, b, hrun, hrefines'⟩ := hrefines.step hsmall hstep
    refine ⟨b, hrun.invariant hinv fun c thread d hc hmove => ?_, hrefines'⟩
    cases thread with
    | owner => exact ownerStep_inv hc hmove
    | worker i => exact workerStep_inv hc hmove
  obtain ⟨a, hinv, hrefines⟩ := hfollow
  exact ⟨a, hinv, hrefines, hinv.toCounts.queue_length_le.trans hfew⟩

theorem run_quarter (hfew : tasks.length + n ≤ quarter)
    (h : Run QueuedStep (queuedPoolCreate n tasks) threads s) :
    Run QuarterStep (queuedPoolCreate n tasks) threads s := by
  induction h with
  | nil => exact Run.nil
  | snoc hrun hlast ih =>
    obtain ⟨a, -, hrefines, hsmall⟩ := run_refines hfew (hrun.snoc hlast)
    exact ih.snoc ⟨hlast, hrefines.settled.size_eq ▸ hsmall⟩

/-- **The drained pool**: along every run in which at most a quarter of the ring is queued, no
thread ends in a fault and no worker runs the sentinel; when the joins are over every task has
been run exactly once; until then some thread can move, and the run is no longer than a multiple
of the tasks and workers. -/
theorem queuedPool_drains (hn : 1 ≤ n)
    (h : Run QuarterStep (queuedPoolCreate n tasks) threads s) :
    ((∀ thread fault, queuedStep s thread ≠ some (.error fault)) ∧
      (∀ i, s.workers i ≠ .working none) ∧
      (s.owner = .joined → s.finished.Perm (tasks.map some) ∧
        (∀ i, s.workers i = .exited) ∧ s.queue.size = 0) ∧
      (s.owner ≠ .joined → ∃ thread t, QueuedStep s thread t)) ∧
    threads.length ≤ 7 * (tasks.length + n) + 3 := by
  obtain ⟨ls, a, hrun, hrefines, hsmall⟩ := quarterRun_refines h
  refine ⟨hrefines.drains (run_inv hrun) hn hsmall, ?_⟩
  have hlength := run_length_le (h.mono fun _ _ _ hstep => hstep.1)
  rw [remaining_create] at hlength
  omega

/-- One worker, one task, and the tests of both enqueues. -/
def queuedDrainOne : List (Thread 1) :=
  let worker := .worker (Fin.last 0)
  [.owner, .owner, .owner, worker, worker, worker, .owner, .owner, .owner, .owner, worker, worker,
    .owner, .owner]

theorem queuedPool_drains_one :
    ∃ s : QueuedPool 1 ℕ, Run QuarterStep (queuedPoolCreate 1 [7]) queuedDrainOne s ∧
      s.owner = .joined ∧ s.finished.Perm [some 7] ∧ s.queue.size = 0 := by
  have hjoins : (queuedDrainOne.foldlM (fun s thread => (queuedStep s thread).bind Except.toOption)
      (queuedPoolCreate 1 [7])).map (·.owner) = some .joined := by decide +kernel
  obtain ⟨s, hrun, hjoined⟩ := Option.map_eq_some_iff.mp hjoins
  have hquarter := run_quarter (by decide) (run_of_foldlM hrun)
  obtain ⟨⟨-, -, hdrained, -⟩, -⟩ := queuedPool_drains le_rfl hquarter
  obtain ⟨hfinished, -, hempty⟩ := hdrained hjoined
  exact ⟨s, hquarter, hjoined, hfinished, hempty⟩

/-! ## Pools that can -/

/-- The owner has enqueued `k` items, between two enqueues, and no worker has moved. -/
structure Loaded (tasks : List τ) (k : ℕ) (s : QueuedPool n τ) : Prop where
  settled : ∃ items, items.length = k ∧ Settled s.queue items
  full : s.full = none
  idle : ∀ i, s.workers i = .dequeuing
  owner : (s.running = true ∧ ∃ rest, s.owner = .pushing rest ∧ rest.length + k = tasks.length) ∨
    ∃ i, s.owner = .stopping i ∧ tasks.length + i = k

theorem loaded_create (tasks : List τ) : Loaded tasks 0 (queuedPoolCreate n tasks) where
  settled := ⟨[], rfl, settled_create⟩
  full := rfl
  idle := fun _ => rfl
  owner := .inl ⟨rfl, tasks, rfl, rfl⟩

/-- The two steps of an enqueue that finds room. -/
theorem enqueue_run {items : List (Option τ)} (hsettled : Settled s.queue items)
    (hroom : items.length < initialCapacity) (hfull : s.full = none) (item : Option τ)
    (next : OwnerState τ)
    (howner : ∀ full, queuedOwnerStep { s with full := full } =
      some ((enqueueMove { s with full := full } item next).mapError .queue)) :
    ∃ q, Settled q (items ++ [item]) ∧
      Run QueuedStep s [.owner, .owner] { s with queue := q, owner := next } := by
  obtain ⟨q, hsection, hsettled'⟩ := hsettled.enqueue ownerId hroom item
  have hne : s.queue.size ≠ s.queue.capacity := by
    rw [hsettled.size_eq, hsettled.capacity]
    exact hroom.ne
  have hs : { s with full := none } = s := by rw [← hfull]
  have htest : QueuedStep s .owner { s with full := some false } := by
    have hmove := howner none
    rw [hs] at hmove
    simp only [QueuedStep, queuedStep, hmove, enqueueMove, hfull, decide_eq_false hne]
    rfl
  have hstore : QueuedStep { s with full := some false } .owner
      { s with queue := q, full := none, owner := next } := by
    simp only [QueuedStep, queuedStep, howner, enqueueMove, hsection, ok_bind]
    rfl
  refine ⟨q, hsettled', ?_⟩
  have hlast : { s with queue := q, owner := next } =
      { s with queue := q, full := none, owner := next } := by rw [← hfull]
  rw [hlast]
  exact (Run.single htest).snoc hstore

/-- The owner enqueues one more item while the workers wait. -/
theorem Loaded.next {k : ℕ} (h : Loaded tasks k s) (hk : k < tasks.length + n)
    (hroom : k < initialCapacity) :
    ∃ threads t, Run QueuedStep s threads t ∧ Loaded tasks (k + 1) t := by
  obtain ⟨items, rfl, hsettled⟩ := h.settled
  obtain ⟨hrunning, rest, howner, hrest⟩ | ⟨i, howner, hi⟩ := h.owner
  · cases rest with
    | nil =>
      -- the last task is queued, so destroy comes first
      have hstop : QueuedStep s .owner { s with running := false, owner := .stopping 0 } := by
        simp only [QueuedStep, queuedStep, queuedOwnerStep, howner]
      rw [List.length_nil, Nat.zero_add] at hrest
      obtain ⟨q, hq, hrun⟩ := enqueue_run
        (s := { s with running := false, owner := .stopping 0 }) hsettled hroom h.full none
        (.stopping 1) fun full => by
          have hn : 0 < n := by omega
          simp only [queuedOwnerStep, if_pos hn]
      refine ⟨_, _, (Run.single hstop).append hrun, ⟨_, ?_, hq⟩, h.full, h.idle,
        .inr ⟨1, rfl, by omega⟩⟩
      rw [List.length_append, List.length_singleton]
    | cons task rest =>
      have hpush : QueuedStep s .owner { s with owner := .enqueuing task rest } := by
        simp only [QueuedStep, queuedStep, queuedOwnerStep, howner, if_pos hrunning]
      obtain ⟨q, hq, hrun⟩ := enqueue_run (s := { s with owner := .enqueuing task rest })
        hsettled hroom h.full (some task) (.pushing rest) fun full => rfl
      rw [List.length_cons] at hrest
      refine ⟨_, _, (Run.single hpush).append hrun, ⟨_, ?_, hq⟩, h.full, h.idle,
        .inl ⟨hrunning, rest, rfl, by omega⟩⟩
      rw [List.length_append, List.length_singleton]
  · obtain ⟨q, hq, hrun⟩ := enqueue_run (s := s) hsettled hroom h.full none
      (.stopping (i + 1)) fun full => by
        have hin : i < n := by omega
        simp only [queuedOwnerStep, howner, if_pos hin]
    refine ⟨_, _, hrun, ⟨_, ?_, hq⟩, h.full, h.idle, .inr ⟨i + 1, rfl, by omega⟩⟩
    rw [List.length_append, List.length_singleton]

/-- The owner can enqueue a given number of items before the first worker moves. -/
theorem loaded_run (tasks : List τ) : ∀ k ≤ tasks.length + n, k ≤ initialCapacity →
    ∃ threads, ∃ s : QueuedPool n τ, Run QueuedStep (queuedPoolCreate n tasks) threads s ∧
      Loaded tasks k s := by
  intro k
  induction k with
  | zero => exact fun _ _ => ⟨[], _, Run.nil, loaded_create tasks⟩
  | succ k ih =>
    intro hk hroom
    obtain ⟨threads, s, hrun, hloaded⟩ := ih (by omega) (by omega)
    obtain ⟨more, t, hmore, hloaded'⟩ := hloaded.next (by omega) (by omega)
    exact ⟨threads ++ more, t, hrun.append hmore, hloaded'⟩

/-- **The pool on its queue is safe** exactly if tasks and workers together fit into a quarter of
the ring: then no thread ends in a fault in any run, and otherwise one does. -/
theorem queuedPool_safe_iff (tasks : List τ) (hn : 1 ≤ n) :
    (∀ threads, ∀ s : QueuedPool n τ, Run QueuedStep (queuedPoolCreate n tasks) threads s →
      ∀ thread fault, queuedStep s thread ≠ some (.error fault)) ↔
    tasks.length + n ≤ quarter := by
  constructor
  · intro hsafe
    by_contra hmany
    obtain ⟨threads, s, hrun, hloaded⟩ :=
      loaded_run tasks (quarter + 1) (not_le.mp hmany) (by decide)
    obtain ⟨items, hlength, hsettled⟩ := hloaded.settled
    cases items with
    | nil => cases hlength
    | cons item items =>
      have hrelock := hsettled.dequeue_relock (workerId ⟨0, hn⟩) (Nat.succ.inj hlength)
      apply hsafe threads s hrun (.worker ⟨0, hn⟩) (.queue .relock)
      simp [queuedStep, queuedWorkerStep, hloaded.idle, hrelock]
  · intro hfew threads s hrun
    obtain ⟨a, -, hrefines, hsmall⟩ := run_refines hfew hrun
    exact hrefines.no_fault hsmall

theorem queuedPool_safe_iff_four : (∀ threads, ∀ s : QueuedPool 4 ℕ,
    Run QueuedStep (queuedPoolCreate 4 (List.range 28)) threads s →
      ∀ thread fault, queuedStep s thread ≠ some (.error fault)) ↔
    (List.range 28).length + 4 ≤ quarter :=
  queuedPool_safe_iff _ (by decide)

end Drain

end NetworkServers.Pool
