import NetworkServers.Http.Queue
import NetworkServers.Library.Machine

/-!
# The Queue as a Ring

What one operation of the queue does to a well-formed ring: the copy loop of
`safe_queue_resize`, growth, shrinking, and the two operations, for either kind
of mutex. The FIFO and the lock discipline results are built on these lemmas.
-/

namespace NetworkServers.Queue

open NetworkServers.Ring NetworkServers.Machine

variable {α : Type}

/-! ## Well-formed rings -/

/-- The index fields of the queue agree: `rear` lies `size` slots behind `front`. -/
structure WellFormed (q : SafeQueue α) : Prop where
  front_lt : q.front < q.capacity
  size_le : q.size ≤ q.capacity
  rear_eq : q.rear = (q.front + q.size) % q.capacity
  data_length : q.data.length = q.capacity

/-- The queue is a well-formed ring that holds `items`, oldest first. -/
structure Represents (q : SafeQueue α) (items : List α) : Prop where
  wellFormed : WellFormed q
  size_eq : q.size = items.length
  holds : Holds q.data q.front q.capacity items

theorem WellFormed.rear_lt {q : SafeQueue α} (hq : WellFormed q) : q.rear < q.data.length := by
  rw [hq.rear_eq, hq.data_length]
  exact slot_lt hq.front_lt _

theorem wellFormed_create : WellFormed (safeQueueCreate : SafeQueue α) where
  front_lt := Nat.zero_lt_succ 127
  size_le := Nat.zero_le 128
  rear_eq := rfl
  data_length := List.length_replicate ..

theorem represents_create : Represents (safeQueueCreate : SafeQueue α) [] where
  wellFormed := wellFormed_create
  size_eq := rfl
  holds := holds_nil

/-- A well-formed ring stays one under any change of the mutex. -/
theorem WellFormed.withMutex {q : SafeQueue α} (hq : WellFormed q) (m : Mutex) :
    WellFormed { q with mutex := m } where
  front_lt := hq.front_lt
  size_le := hq.size_le
  rear_eq := hq.rear_eq
  data_length := hq.data_length

theorem Represents.withMutex {q : SafeQueue α} {items : List α} (hq : Represents q items)
    (m : Mutex) : Represents { q with mutex := m } items where
  wellFormed := hq.wellFormed.withMutex m
  size_eq := hq.size_eq
  holds := hq.holds

/-! ## The copy loop -/

/-- The copy loop ends at once where it starts at `rear`. -/
theorem copyLoop_rear (data : List (Option α)) (rear capacity fuel j : ℕ)
    (newData : List (Option α)) :
    copyLoop data rear capacity fuel rear j newData = .ok newData := by
  cases fuel <;> exact if_pos rfl

/-- One turn of the copy loop in front of `rear`, where the distance to `rear` is less
than a revolution. -/
theorem copyLoop_turn {data : List (Option α)} {f c n k : ℕ} (hf : f < c)
    (hlen : data.length = c) (hn : n < c) (hk : k < n) (fuel : ℕ)
    {newData : List (Option α)} (hfit : n ≤ newData.length) :
    ∃ slot, data[(f + k) % c]? = some slot ∧
      copyLoop data ((f + n) % c) c (fuel + 1) ((f + k) % c) k newData =
        copyLoop data ((f + n) % c) c fuel ((f + (k + 1)) % c) (k + 1) (newData.set k slot) := by
  have hslot : (f + k) % c < data.length := by
    rw [hlen]
    exact slot_lt hf _
  -- fewer than c slots are copied, so no earlier turn meets rear
  have hne : (f + k) % c ≠ (f + n) % c := slot_ne hf hk hn
  refine ⟨data[(f + k) % c], List.getElem?_eq_getElem hslot, ?_⟩
  rw [copyLoop, if_neg hne, List.getElem?_eq_getElem hslot]
  simp only
  rw [if_pos (by omega), slot_succ]

/-- The copy loop has met `rear` after `m` iterations when `rear` lies `m < c` slots
ahead, and has then copied the slots it passed, in order. -/
theorem copyLoop_spec {data : List (Option α)} {f c n : ℕ} (hf : f < c)
    (hlen : data.length = c) (hn : n < c) :
    ∀ (m k fuel : ℕ) (newData : List (Option α)), k + m = n → m ≤ fuel →
      n ≤ newData.length →
      ∃ out, copyLoop data ((f + n) % c) c fuel ((f + k) % c) k newData = .ok out ∧
        out.length = newData.length ∧
        ∀ i, out[i]? = if k ≤ i ∧ i < n then data[(f + i) % c]? else newData[i]? := by
  -- on the distance m to rear, at turn k
  intro m
  induction m with
  | zero =>
    intro k fuel newData hk _ _
    obtain rfl : k = n := by omega
    refine ⟨newData, ?_, rfl, fun i => ?_⟩
    · exact copyLoop_rear ..
    · rw [if_neg (by omega)]
  | succ m ih =>
    intro k fuel newData hk hfuel hfit
    obtain ⟨fuel, rfl⟩ : ∃ n, fuel = n + 1 := ⟨fuel - 1, by omega⟩
    obtain ⟨slot, hslot, hturn⟩ := copyLoop_turn hf hlen hn (by omega : k < n) fuel hfit
    obtain ⟨out, hout, hlength, hget⟩ :=
      ih (k + 1) fuel (newData.set k slot) (by omega) (by omega) (by rwa [List.length_set])
    refine ⟨out, hturn.trans hout, by rwa [List.length_set] at hlength, fun i => ?_⟩
    rw [hget]
    by_cases hik : i = k
    · subst hik
      rw [if_neg (by omega), if_pos (by omega), List.getElem?_set_self (by omega), hslot]
    · rw [List.getElem?_set_ne (Ne.symm hik)]
      by_cases hin : k + 1 ≤ i ∧ i < n
      · rw [if_pos hin, if_pos (by omega)]
      · rw [if_neg hin, if_neg (by omega)]

/-! ## Resizing -/

/-- Resizing a ring that is not full copies the items to the start of the new array. -/
theorem resizeBody_spec {q : SafeQueue α} {newCapacity : ℕ} (hq : WellFormed q)
    (hnotFull : q.size < q.capacity) (hfit : q.size < newCapacity) :
    ∃ data', resizeBody q newCapacity =
        .ok { q with data := data', front := 0, rear := q.size, capacity := newCapacity } ∧
      data'.length = newCapacity ∧
      ∀ i, data'[i]? = if i < q.size then q.data[(q.front + i) % q.capacity]?
        else (List.replicate newCapacity none)[i]? := by
  obtain ⟨out, hout, hlength, hget⟩ :=
    copyLoop_spec hq.front_lt hq.data_length hnotFull q.size 0 q.capacity
      (List.replicate newCapacity none) (by omega) hq.size_le
      (by rw [List.length_replicate]; omega)
  rw [slot_zero hq.front_lt, ← hq.rear_eq] at hout
  refine ⟨out, ?_, by rwa [List.length_replicate] at hlength, fun i => ?_⟩
  · simp only [resizeBody, hout]
    rfl
  · simpa using hget i

/-- On a full ring `front` and `rear` coincide, so the copy loop ends at once and
the new array stays unwritten. -/
theorem resizeBody_full {q : SafeQueue α} (newCapacity : ℕ) (hq : WellFormed q)
    (hfull : q.size = q.capacity) :
    resizeBody q newCapacity =
      .ok { q with
        data := List.replicate newCapacity none
        front := 0
        rear := q.size
        capacity := newCapacity } := by
  have hmeet : q.front = q.rear := by
    rw [hq.rear_eq, hfull, slot_full hq.front_lt]
  simp only [resizeBody, hmeet, copyLoop_rear]
  rfl

/-- A resized queue is well formed when its items fit below the new capacity. -/
theorem wellFormed_resized {q : SafeQueue α} {newCapacity : ℕ} {data' : List (Option α)}
    (hlength : data'.length = newCapacity) (hfit : q.size < newCapacity) :
    WellFormed { q with data := data', front := 0, rear := q.size, capacity := newCapacity } where
  front_lt := by
    show 0 < newCapacity
    omega
  size_le := hfit.le
  rear_eq := by
    show q.size = (0 + q.size) % newCapacity
    rw [Nat.zero_add, Nat.mod_eq_of_lt hfit]
  data_length := hlength

/-- Resizing to more slots than there are items always returns a well-formed queue. -/
theorem resizeBody_wellFormed {q : SafeQueue α} {newCapacity : ℕ} (hq : WellFormed q)
    (hfit : q.size < newCapacity) :
    ∃ q', resizeBody q newCapacity = .ok q' ∧ WellFormed q' ∧ q'.size = q.size ∧
      q'.capacity = newCapacity ∧ q'.mutex = q.mutex := by
  rcases Nat.lt_or_ge q.size q.capacity with hlt | hge
  · obtain ⟨data', hbody, hlength, -⟩ := resizeBody_spec hq hlt hfit
    exact ⟨_, hbody, wellFormed_resized hlength hfit, rfl, rfl, rfl⟩
  · have hfull : q.size = q.capacity := le_antisymm hq.size_le hge
    exact ⟨_, resizeBody_full _ hq hfull,
      wellFormed_resized List.length_replicate hfit, rfl, rfl, rfl⟩

/-- Resizing a queue that is not full keeps the items it represents. -/
theorem resizeBody_represents {q : SafeQueue α} {items : List α} {newCapacity : ℕ}
    (hq : Represents q items) (hnotFull : q.size < q.capacity) (hfit : q.size < newCapacity) :
    ∃ q', resizeBody q newCapacity = .ok q' ∧ Represents q' items ∧ q'.mutex = q.mutex := by
  obtain ⟨data', hbody, hlength, hget⟩ := resizeBody_spec hq.wellFormed hnotFull hfit
  refine ⟨_, hbody, ⟨wellFormed_resized hlength hfit, hq.size_eq, ?_⟩, rfl⟩
  rw [holds_zero_iff (by rw [← hq.size_eq]; exact hfit.le)]
  intro i hi
  rw [hget, if_pos (by rw [hq.size_eq]; exact hi)]
  exact hq.holds i hi

/-! ## Storing and taking an item -/

/-- Storing an item behind the last one of a ring that is not full. -/
theorem enqueueBody_wellFormed {q : SafeQueue α} (hq : WellFormed q)
    (hnotFull : q.size < q.capacity) (item : α) :
    ∃ q', enqueueBody q item = .ok q' ∧ WellFormed q' ∧ q'.size = q.size + 1 ∧
      q'.capacity = q.capacity ∧ q'.mutex = q.mutex := by
  refine ⟨_, if_pos hq.rear_lt, ⟨hq.front_lt, hnotFull, ?_, ?_⟩, rfl, rfl, rfl⟩
  · show (q.rear + 1) % q.capacity = (q.front + (q.size + 1)) % q.capacity
    rw [hq.rear_eq, slot_succ]
  · show (q.data.set q.rear (some item)).length = q.capacity
    rw [List.length_set, hq.data_length]

/-- Storing an item appends it to the list the queue represents. -/
theorem enqueueBody_represents {q : SafeQueue α} {items : List α} (hq : Represents q items)
    (hnotFull : q.size < q.capacity) (item : α) :
    ∃ q', enqueueBody q item = .ok q' ∧ Represents q' (items ++ [item]) ∧
      q'.mutex = q.mutex := by
  have hwf := hq.wellFormed
  have hrear : q.rear = (q.front + items.length) % q.capacity := by
    rw [← hq.size_eq, hwf.rear_eq]
  obtain ⟨q', hbody, hwf', hsize, -, hmutex⟩ := enqueueBody_wellFormed hwf hnotFull item
  refine ⟨q', hbody, ⟨hwf', ?_, ?_⟩, hmutex⟩
  · rw [hsize, hq.size_eq, List.length_append, List.length_singleton]
  · rw [enqueueBody, if_pos hwf.rear_lt, Except.ok.injEq] at hbody
    subst hbody
    rw [hrear]
    exact hq.holds.push hwf.front_lt hwf.data_length (hq.size_eq ▸ hnotFull) item

/-- Taking the slot at `front` of a non-empty ring. -/
theorem takeFront_wellFormed {q : SafeQueue α} (hq : WellFormed q) (hpos : 0 < q.size) :
    ∃ item q', takeFront q = .ok (item, q') ∧ WellFormed q' ∧ q'.size = q.size - 1 ∧
      q'.capacity = q.capacity ∧ q'.mutex = q.mutex := by
  have hin : q.front < q.data.length := by
    rw [hq.data_length]
    exact hq.front_lt
  refine ⟨q.data[q.front], { q with front := (q.front + 1) % q.capacity, size := q.size - 1 },
    ?_, ⟨slot_lt hq.front_lt 1, (Nat.sub_le _ _).trans hq.size_le, ?_, hq.data_length⟩,
    rfl, rfl, rfl⟩
  · rw [takeFront, List.getElem?_eq_getElem hin]
  · show q.rear = ((q.front + 1) % q.capacity + (q.size - 1)) % q.capacity
    rw [slot_start_succ, Nat.sub_add_cancel hpos, hq.rear_eq]

/-- Taking the front of a queue returns its oldest item. -/
theorem takeFront_represents {q : SafeQueue α} {x : α} {items : List α}
    (hq : Represents q (x :: items)) :
    ∃ q', takeFront q = .ok (some x, q') ∧ Represents q' items ∧ q'.size = q.size - 1 ∧
      q'.capacity = q.capacity ∧ q'.mutex = q.mutex := by
  have hpos : 0 < q.size := by
    rw [hq.size_eq]
    exact Nat.succ_pos _
  obtain ⟨item, q', htake, hwf', hsize, hcapacity, hmutex⟩ :=
    takeFront_wellFormed hq.wellFormed hpos
  have hhead := hq.holds.head hq.wellFormed.front_lt
  rw [takeFront, hhead, Except.ok.injEq, Prod.mk.injEq] at htake
  obtain ⟨rfl, rfl⟩ := htake
  refine ⟨_, by rw [takeFront, hhead], ⟨hwf', ?_, hq.holds.pop⟩, rfl, rfl, rfl⟩
  show q.size - 1 = items.length
  rw [hq.size_eq]
  rfl

/-! ## The two operations around their bodies -/

/-- The mutex while thread `self` holds it `depth` times. -/
def heldBy (self : ThreadId) (depth : ℕ) : Mutex := { holder := some self, depth := depth }

/-- A queue that is due for shrinking is not full and fits into half its slots. -/
theorem ShrinkDue.fits {size capacity : ℕ} (h : ShrinkDue size capacity) :
    size < capacity ∧ size < capacity / 2 := by
  obtain ⟨hpos, heq⟩ := h
  omega

section Steps

variable {q q₁ q₂ : SafeQueue α} {kind : MutexKind} {self : ThreadId} {item : α}
  {taken : Option α}

theorem safeQueueEnqueue_of_ne (hmutex : q.mutex = Mutex.free) (hne : q.size ≠ q.capacity)
    (hbody : enqueueBody { q with mutex := heldBy self 1 } item = .ok q₁)
    (hheld : q₁.mutex = heldBy self 1) :
    safeQueueEnqueue kind self q item = .ok { q₁ with mutex := Mutex.free } := by
  simp only [heldBy] at hbody hheld
  simp only [safeQueueEnqueue, if_neg hne, pure_bind, hmutex, mutexLock_free, ok_bind, hbody,
    hheld, mutexUnlock_one]
  rfl

theorem safeQueueEnqueue_of_full (hmutex : q.mutex = Mutex.free) (hfull : q.size = q.capacity)
    (hresize : resizeBody { q with mutex := heldBy self 1 } (q.capacity * 2) = .ok q₁)
    (hheld₁ : q₁.mutex = heldBy self 1)
    (hbody : enqueueBody { q₁ with mutex := heldBy self 1 } item = .ok q₂)
    (hheld₂ : q₂.mutex = heldBy self 1) :
    safeQueueEnqueue kind self q item = .ok { q₂ with mutex := Mutex.free } := by
  simp only [heldBy] at hresize hheld₁ hbody hheld₂
  simp only [safeQueueEnqueue, if_pos hfull, safeQueueResize, hmutex, mutexLock_free, ok_bind,
    hresize, hheld₁, mutexUnlock_one, pure_bind, hbody, hheld₂]
  rfl

theorem safeQueueDequeue_of_not_shrink (hmutex : q.mutex = Mutex.free) (hpos : q.size ≠ 0)
    (htake : takeFront { q with mutex := heldBy self 1 } = .ok (taken, q₁))
    (hheld : q₁.mutex = heldBy self 1) (hshrink : ¬ ShrinkDue q₁.size q₁.capacity) :
    safeQueueDequeue kind self q = .ok (taken, { q₁ with mutex := Mutex.free }) := by
  simp only [heldBy] at htake hheld
  simp only [safeQueueDequeue, hmutex, mutexLock_free, ok_bind, if_neg hpos, htake,
    if_neg hshrink, pure_bind, hheld, mutexUnlock_one]
  rfl

/-- A recursive mutex is taken a second time for the resize and given back once. -/
theorem safeQueueDequeue_of_shrink (hmutex : q.mutex = Mutex.free) (hpos : q.size ≠ 0)
    (htake : takeFront { q with mutex := heldBy self 1 } = .ok (taken, q₁))
    (hheld₁ : q₁.mutex = heldBy self 1) (hshrink : ShrinkDue q₁.size q₁.capacity)
    (hresize : resizeBody { q₁ with mutex := heldBy self 2 } (q₁.capacity / 2) = .ok q₂)
    (hheld₂ : q₂.mutex = heldBy self 2) :
    safeQueueDequeue .recursive self q = .ok (taken, { q₂ with mutex := Mutex.free }) := by
  simp only [heldBy] at htake hheld₁ hresize hheld₂
  simp only [safeQueueDequeue, hmutex, mutexLock_free, ok_bind, if_neg hpos, htake,
    if_pos hshrink, safeQueueResize, hheld₁, mutexLock_recursive_held, hresize, hheld₂,
    mutexUnlock_two]
  rfl

/-- A normal mutex is already held when the shrink asks for it. -/
theorem safeQueueDequeue_relock (hmutex : q.mutex = Mutex.free) (hpos : q.size ≠ 0)
    (htake : takeFront { q with mutex := heldBy self 1 } = .ok (taken, q₁))
    (hheld : q₁.mutex = heldBy self 1) (hshrink : ShrinkDue q₁.size q₁.capacity) :
    safeQueueDequeue .normal self q = .error .relock := by
  simp only [heldBy] at htake hheld
  simp only [safeQueueDequeue, hmutex, mutexLock_free, ok_bind, if_neg hpos, htake,
    if_pos hshrink, safeQueueResize, hheld, mutexLock_normal_held, error_bind]

end Steps

/-! ## The two operations on a well-formed ring -/

/-- An enqueue returns for either kind of mutex, grown or not. -/
theorem safeQueueEnqueue_wellFormed {q : SafeQueue α} (kind : MutexKind) (self : ThreadId)
    (item : α) (hq : WellFormed q) (hmutex : q.mutex = Mutex.free) :
    ∃ q', safeQueueEnqueue kind self q item = .ok q' ∧ WellFormed q' ∧
      q'.mutex = Mutex.free ∧ q'.size = q.size + 1 := by
  by_cases hfull : q.size = q.capacity
  · have hfit : q.size < q.capacity * 2 := by
      have := hq.front_lt
      omega
    obtain ⟨q₁, hresize, hq₁, hsize₁, hcapacity₁, hheld₁⟩ :=
      resizeBody_wellFormed (hq.withMutex (heldBy self 1)) hfit
    obtain ⟨q₂, hbody, hq₂, hsize₂, -, hheld₂⟩ := enqueueBody_wellFormed
      (hq₁.withMutex (heldBy self 1)) (by rw [hsize₁, hcapacity₁]; exact hfit) item
    exact ⟨_, safeQueueEnqueue_of_full hmutex hfull hresize hheld₁ hbody hheld₂,
      hq₂.withMutex _, rfl, hsize₂.trans (congrArg (· + 1) hsize₁)⟩
  · obtain ⟨q₁, hbody, hq₁, hsize₁, -, hheld⟩ := enqueueBody_wellFormed
      (hq.withMutex (heldBy self 1)) (lt_of_le_of_ne hq.size_le hfull) item
    exact ⟨_, safeQueueEnqueue_of_ne hmutex hfull hbody hheld, hq₁.withMutex _, rfl, hsize₁⟩

/-- A dequeue returns unless it asks for a mutex that blocks its own holder. -/
theorem safeQueueDequeue_wellFormed {q : SafeQueue α} {kind : MutexKind} (self : ThreadId)
    (hq : WellFormed q) (hmutex : q.mutex = Mutex.free) (hpos : q.size ≠ 0)
    (hsafe : kind = .recursive ∨ ¬ ShrinkDue (q.size - 1) q.capacity) :
    ∃ item q', safeQueueDequeue kind self q = .ok (item, q') ∧ WellFormed q' ∧
      q'.mutex = Mutex.free ∧ q'.size = q.size - 1 := by
  obtain ⟨item, q₁, htake, hq₁, hsize₁, hcapacity₁, hheld₁⟩ :=
    takeFront_wellFormed (hq.withMutex (heldBy self 1)) (Nat.pos_of_ne_zero hpos)
  by_cases hshrink : ShrinkDue q₁.size q₁.capacity
  · obtain rfl | hnot := hsafe
    · obtain ⟨q₂, hresize, hq₂, hsize₂, -, hheld₂⟩ :=
        resizeBody_wellFormed (hq₁.withMutex (heldBy self 2)) hshrink.fits.2
      exact ⟨item, _,
        safeQueueDequeue_of_shrink hmutex hpos htake hheld₁ hshrink hresize hheld₂,
        hq₂.withMutex _, rfl, hsize₂.trans hsize₁⟩
    · rw [hsize₁, hcapacity₁] at hshrink
      exact absurd hshrink hnot
  · exact ⟨item, _, safeQueueDequeue_of_not_shrink hmutex hpos htake hheld₁ hshrink,
      hq₁.withMutex _, rfl, hsize₁⟩

/-- A dequeue that is due for a shrink waits for a normal mutex that it holds itself. -/
theorem safeQueueDequeue_shrinkDue {q : SafeQueue α} (self : ThreadId) (hq : WellFormed q)
    (hmutex : q.mutex = Mutex.free) (hpos : q.size ≠ 0)
    (hshrink : ShrinkDue (q.size - 1) q.capacity) :
    safeQueueDequeue .normal self q = .error .relock := by
  obtain ⟨item, q₁, htake, -, hsize₁, hcapacity₁, hheld₁⟩ :=
    takeFront_wellFormed (hq.withMutex (heldBy self 1)) (Nat.pos_of_ne_zero hpos)
  refine safeQueueDequeue_relock hmutex hpos htake hheld₁ ?_
  rw [hsize₁, hcapacity₁]
  exact hshrink

/-! ## The ideal queue -/

/-- One call on the list of queued items: the list after it and what it returns.
A dequeue from the empty list has no result. -/
def fifoCall : List α → ThreadId × Call α → Option (List α × List α)
  | items, (_, .enqueue item) => some (items ++ [item], [])
  | item :: items, (_, .dequeue) => some (items, [item])
  | [], (_, .dequeue) => none

/-- The calls never dequeue from an empty queue. -/
def DequeuesOnlyQueued (calls : List (ThreadId × Call α)) : Prop :=
  (runAll fifoCall calls []).isSome

instance (calls : List (ThreadId × Call α)) : Decidable (DequeuesOnlyQueued calls) :=
  inferInstanceAs (Decidable (_ = true))

/-! ## Sequences of calls -/

/-- The run of `calls` stopped in a dequeue that was due for a shrink and waited for
the mutex that its own thread held. -/
def StopsInShrink (kind : MutexKind) (calls : List (ThreadId × Call α)) : Prop :=
  kind = .normal ∧ runAll (call kind) calls safeQueueCreate = .error .relock ∧
    ∃ pre self q outs, pre ++ [(self, .dequeue)] <+: calls ∧
      runAll (call kind) pre safeQueueCreate = .ok (q, outs) ∧
      ShrinkDue (q.size - 1) q.capacity

/-- A run that has stopped stays stopped under further calls. -/
theorem StopsInShrink.snoc {kind : MutexKind} {calls : List (ThreadId × Call α)}
    (h : StopsInShrink kind calls) (c : ThreadId × Call α) :
    StopsInShrink kind (calls ++ [c]) := by
  obtain ⟨hkind, hrun, pre, self, q, outs, hpre, hrest⟩ := h
  refine ⟨hkind, ?_, pre, self, q, outs, hpre.trans (List.prefix_append _ _), hrest⟩
  rw [runAll_snoc, hrun]
  rfl

/-- Calls that dequeue only queued items return one after the other, each leaving a
well-formed queue of the right size and a free mutex, up to the first shrink of a
queue whose mutex blocks its own holder. -/
theorem runAll_cases (kind : MutexKind) :
    ∀ (calls : List (ThreadId × Call α)) (items outs : List α),
      runAll fifoCall calls [] = some (items, outs) →
      (∃ q outs', runAll (call kind) calls safeQueueCreate = .ok (q, outs') ∧ WellFormed q ∧
        q.mutex = Mutex.free ∧ q.size = items.length) ∨ StopsInShrink kind calls := by
  intro calls
  -- the last call acts on the state that the earlier ones lead to
  induction calls using List.reverseRecOn with
  | nil =>
    intro items outs hfifo
    obtain ⟨rfl, -⟩ : [] = items ∧ [] = outs := by simpa using hfifo
    exact .inl ⟨safeQueueCreate, [], rfl, wellFormed_create, rfl, rfl⟩
  | append_singleton calls c ih =>
    intro items outs hfifo
    rw [runAll_snoc] at hfifo
    obtain ⟨⟨before, outs₁⟩, hbefore, hfifo⟩ := Option.bind_eq_some_iff.mp hfifo
    obtain ⟨⟨after, out⟩, hafter, hfifo⟩ := Option.bind_eq_some_iff.mp hfifo
    obtain ⟨rfl, -⟩ : after = items ∧ outs₁ ++ out = outs := by simpa using hfifo
    obtain ⟨q, outs', hrun, hq, hmutex, hsize⟩ | hstop := ih before outs₁ hbefore
    swap
    · exact .inr (hstop.snoc c)
    obtain ⟨self, c⟩ := c
    cases c with
    | enqueue item =>
      obtain ⟨rfl, -⟩ : before ++ [item] = after ∧ [] = out := by simpa [fifoCall] using hafter
      obtain ⟨q', henq, hq', hmutex', hsize'⟩ :=
        safeQueueEnqueue_wellFormed kind self item hq hmutex
      exact .inl ⟨q', outs', by simp [runAll_snoc, hrun, call, henq], hq', hmutex',
        by simp [hsize', hsize]⟩
    | dequeue =>
      cases before with
      | nil => simp [fifoCall] at hafter
      | cons x xs =>
        obtain ⟨rfl, -⟩ : xs = after ∧ [x] = out := by simpa [fifoCall] using hafter
        have hpos : q.size ≠ 0 := by simp [hsize]
        by_cases hsafe : kind = .recursive ∨ ¬ ShrinkDue (q.size - 1) q.capacity
        · obtain ⟨item, q', hdeq, hq', hmutex', hsize'⟩ :=
            safeQueueDequeue_wellFormed self hq hmutex hpos hsafe
          exact .inl ⟨q', outs' ++ [item], by simp [runAll_snoc, hrun, call, hdeq], hq', hmutex',
            by simp [hsize', hsize]⟩
        · obtain ⟨hkind, hshrink⟩ := not_or.mp hsafe
          rw [not_not] at hshrink
          cases kind with
          | recursive => exact absurd rfl hkind
          | normal =>
            have hdeq := safeQueueDequeue_shrinkDue self hq hmutex hpos hshrink
            refine .inr ⟨rfl, ?_, calls, self, q, outs', List.prefix_refl _, hrun, hshrink⟩
            simp [runAll_snoc, hrun, call, hdeq]

/-- Under a mutex that does not block its own holder every such run returns. -/
theorem runAll_recursive_wellFormed {calls : List (ThreadId × Call α)} {items outs : List α}
    (hfifo : runAll fifoCall calls [] = some (items, outs)) :
    ∃ q outs', runAll (call .recursive) calls safeQueueCreate = .ok (q, outs') ∧
      WellFormed q ∧ q.mutex = Mutex.free ∧ q.size = items.length := by
  obtain h | ⟨hkind, -⟩ := runAll_cases .recursive calls items outs hfifo
  · exact h
  · cases hkind

end NetworkServers.Queue
