import NetworkServers.Library.Ring

/-!
# The Thread-Safe Queue

Translation of `src/src/queue.c`: the ring buffer `SafeQueue`, its growth and
shrinking, and the mutex every operation takes.

`malloc` returns memory nobody has written, so a slot of the array is an
`Option`: `none` until the queue stores an item in it. The mutex is explicit,
with its kind a parameter: `pthread_mutex_init(&queue->mutex, NULL)` makes a
`normal` one, and `recursive` is the mutex that does not block its own holder.

The counters are natural numbers: every capacity is `128` times a power of two,
and the array would not fit into memory long before a `size_t` wraps.
-/

namespace NetworkServers.Queue

/-! ## Mutex -/

/-- A thread that calls the queue. -/
abbrev ThreadId := ℕ

/-- The two behaviours of a mutex towards the thread that holds it. -/
inductive MutexKind where
  | normal
  | recursive
deriving DecidableEq, Repr

/-- A `pthread_mutex_t`: its holder and how often the holder has locked it. -/
structure Mutex where
  holder : Option ThreadId
  depth : ℕ
deriving DecidableEq, Repr

/-- The mutex after `pthread_mutex_init`. -/
def Mutex.free : Mutex := { holder := none, depth := 0 }

/-- The ways a call of the queue can fail to return. -/
inductive Fault where
  /-- The calling thread waits for a mutex that it holds itself. -/
  | relock
  /-- The calling thread waits for another thread. -/
  | blocked
  /-- The copy loop of `safe_queue_resize` has not met `rear` after one revolution. -/
  | copyRunsOn
  /-- An access outside the allocated array. -/
  | outOfBounds
deriving DecidableEq, Repr

/-- `pthread_mutex_lock`, called by thread `self`. -/
def mutexLock (kind : MutexKind) (self : ThreadId) (m : Mutex) : Except Fault Mutex :=
  match m.holder with
  | none => .ok { holder := some self, depth := 1 }
  | some h =>
    if h = self then
      match kind with
      | .normal => .error .relock
      | .recursive => .ok { m with depth := m.depth + 1 }
    else .error .blocked

/-- `pthread_mutex_unlock`, called by the holder. -/
def mutexUnlock (m : Mutex) : Mutex :=
  if m.depth ≤ 1 then Mutex.free else { m with depth := m.depth - 1 }

@[simp] theorem mutexLock_free (kind : MutexKind) (self : ThreadId) :
    mutexLock kind self Mutex.free = .ok { holder := some self, depth := 1 } := rfl

@[simp] theorem mutexLock_normal_held (self : ThreadId) (n : ℕ) :
    mutexLock .normal self { holder := some self, depth := n } = .error .relock := by
  simp [mutexLock]

@[simp] theorem mutexLock_recursive_held (self : ThreadId) (n : ℕ) :
    mutexLock .recursive self { holder := some self, depth := n } =
      .ok { holder := some self, depth := n + 1 } := by
  simp [mutexLock]

@[simp] theorem mutexUnlock_one (h : Option ThreadId) :
    mutexUnlock { holder := h, depth := 1 } = Mutex.free := rfl

@[simp] theorem mutexUnlock_two (h : Option ThreadId) :
    mutexUnlock { holder := h, depth := 2 } = { holder := h, depth := 1 } := rfl

/-! ## The queue -/

/-- `struct SafeQueue`. The condition variable has no state of its own as long as
nobody waits on it. -/
structure SafeQueue (α : Type) where
  data : List (Option α)
  size : ℕ
  capacity : ℕ
  front : ℕ
  rear : ℕ
  mutex : Mutex
deriving DecidableEq, Repr

variable {α : Type}

/-- `INITIAL_CAPACITY`. -/
def initialCapacity : ℕ := 128

/-- `safe_queue_create`. -/
def safeQueueCreate : SafeQueue α where
  data := List.replicate initialCapacity none
  size := 0
  capacity := initialCapacity
  front := 0
  rear := 0
  mutex := Mutex.free

/-- The copy loop of `safe_queue_resize`: from slot `i` to `rear`, one slot of the
old array into slot `j` of the new one. The first argument bounds the number of
iterations. -/
def copyLoop (data : List (Option α)) (rear capacity : ℕ) :
    ℕ → ℕ → ℕ → List (Option α) → Except Fault (List (Option α))
  | 0, i, _, newData => if i = rear then .ok newData else .error .copyRunsOn
  | fuel + 1, i, j, newData =>
    if i = rear then .ok newData
    else
      match data[i]? with
      | none => .error .outOfBounds
      | some slot =>
        if j < newData.length then
          copyLoop data rear capacity fuel ((i + 1) % capacity) (j + 1) (newData.set j slot)
        else .error .outOfBounds

/-- `safe_queue_resize` between its lock and its unlock. -/
def resizeBody (q : SafeQueue α) (newCapacity : ℕ) : Except Fault (SafeQueue α) := do
  let newData ← copyLoop q.data q.rear q.capacity q.capacity q.front 0
    (List.replicate newCapacity none)
  return { q with data := newData, front := 0, rear := q.size, capacity := newCapacity }

/-- `safe_queue_resize`. -/
def safeQueueResize (kind : MutexKind) (self : ThreadId) (q : SafeQueue α)
    (newCapacity : ℕ) : Except Fault (SafeQueue α) := do
  let m ← mutexLock kind self q.mutex
  let q ← resizeBody { q with mutex := m } newCapacity
  return { q with mutex := mutexUnlock q.mutex }

/-- `safe_queue_enqueue` between its lock and its unlock. -/
def enqueueBody (q : SafeQueue α) (item : α) : Except Fault (SafeQueue α) :=
  if q.rear < q.data.length then
    .ok { q with
      data := q.data.set q.rear (some item)
      rear := (q.rear + 1) % q.capacity
      size := q.size + 1 }
  else .error .outOfBounds

/-- `safe_queue_enqueue`: the test for a full ring comes before the lock. -/
def safeQueueEnqueue (kind : MutexKind) (self : ThreadId) (q : SafeQueue α) (item : α) :
    Except Fault (SafeQueue α) := do
  let q ← if q.size = q.capacity then safeQueueResize kind self q (q.capacity * 2) else pure q
  let m ← mutexLock kind self q.mutex
  let q ← enqueueBody { q with mutex := m } item
  return { q with mutex := mutexUnlock q.mutex }

/-- The part of `safe_queue_dequeue` between the wait and the shrink test: the slot
at `front` is read and given up. The item read is `none` where the slot was never
written. -/
def takeFront (q : SafeQueue α) : Except Fault (Option α × SafeQueue α) :=
  match q.data[q.front]? with
  | none => .error .outOfBounds
  | some item =>
    .ok (item, { q with front := (q.front + 1) % q.capacity, size := q.size - 1 })

/-- The shrink test of `safe_queue_dequeue`, on the queue it has just taken from. -/
def ShrinkDue (size capacity : ℕ) : Prop :=
  0 < size ∧ size = capacity / 4

instance (size capacity : ℕ) : Decidable (ShrinkDue size capacity) :=
  inferInstanceAs (Decidable (_ ∧ _))

/-- `safe_queue_dequeue`. On an empty queue the caller waits in
`pthread_cond_wait` for another thread. -/
def safeQueueDequeue (kind : MutexKind) (self : ThreadId) (q : SafeQueue α) :
    Except Fault (Option α × SafeQueue α) := do
  let m ← mutexLock kind self q.mutex
  if q.size = 0 then .error .blocked
  else do
    let (item, q) ← takeFront { q with mutex := m }
    let q ← if ShrinkDue q.size q.capacity then safeQueueResize kind self q (q.capacity / 2)
      else pure q
    return (item, { q with mutex := mutexUnlock q.mutex })

/-! ## Sequences of calls -/

/-- One call of the queue. -/
inductive Call (α : Type) where
  | enqueue (item : α)
  | dequeue
deriving DecidableEq, Repr

/-- One call by thread `self`: the queue after it, and what it returned. -/
def call (kind : MutexKind) (q : SafeQueue α) : ThreadId × Call α →
    Except Fault (SafeQueue α × List (Option α))
  | (self, .enqueue item) => do
    let q ← safeQueueEnqueue kind self q item
    return (q, [])
  | (self, .dequeue) => do
    let (item, q) ← safeQueueDequeue kind self q
    return (q, [item])

end NetworkServers.Queue
