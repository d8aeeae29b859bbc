import NetworkServers.Http.QueueRing
import NetworkServers.Library.Machine

/-!
# The Queue against an Ideal FIFO

Sequential calls of the queue compared with a list. The queue behaves as the
list exactly as long as no item is stored into a full ring: on a full ring
`front` equals `rear`, the copy loop of `safe_queue_resize` ends before its first
iteration, and the grown array contains none of the queued items.
-/

namespace NetworkServers.Queue

open NetworkServers.Ring NetworkServers.Machine

variable {α : Type}

/-! ## What the queue is compared on -/

/-- After every prefix of the calls the queue has returned what the list has
returned, each from a slot that was written, and represents the list. The mutex
does not block its own holder. -/
def BehavesAsFifo (calls : List (ThreadId × Call α)) : Prop :=
  ∀ pre, pre <+: calls → ∀ items outs, runAll fifoCall pre [] = some (items, outs) →
    ∃ q, runAll (call .recursive) pre safeQueueCreate = .ok (q, outs.map some) ∧
      Represents q items

/-- No enqueue of the sequence meets a full ring. -/
def NeverStoresIntoFull (calls : List (ThreadId × Call α)) : Prop :=
  ∀ pre self item, pre ++ [(self, .enqueue item)] <+: calls →
    ∀ q outs, runAll (call .recursive) pre safeQueueCreate = .ok (q, outs) →
      q.size ≠ q.capacity

/-! ## One call -/

/-- An enqueue into a ring that is not full appends to the represented list. -/
theorem safeQueueEnqueue_represents {q : SafeQueue α} {items : List α} (kind : MutexKind)
    (self : ThreadId) (item : α) (hq : Represents q items) (hmutex : q.mutex = Mutex.free)
    (hnotFull : q.size ≠ q.capacity) :
    ∃ q', safeQueueEnqueue kind self q item = .ok q' ∧ Represents q' (items ++ [item]) ∧
      q'.mutex = Mutex.free := by
  obtain ⟨q₁, hbody, hq₁, hheld⟩ := enqueueBody_represents (hq.withMutex (heldBy self 1))
    (lt_of_le_of_ne hq.wellFormed.size_le hnotFull) item
  exact ⟨_, safeQueueEnqueue_of_ne hmutex hnotFull hbody hheld, hq₁.withMutex _, rfl⟩

/-- A dequeue from a queue that holds `item` first returns `item`. -/
theorem safeQueueDequeue_represents {q : SafeQueue α} {item : α} {items : List α}
    (self : ThreadId) (hq : Represents q (item :: items)) (hmutex : q.mutex = Mutex.free) :
    ∃ q', safeQueueDequeue .recursive self q = .ok (some item, q') ∧ Represents q' items ∧
      q'.mutex = Mutex.free := by
  have hpos : q.size ≠ 0 := by
    rw [hq.size_eq]
    exact Nat.succ_ne_zero _
  obtain ⟨q₁, htake, hq₁, -, -, hheld₁⟩ := takeFront_represents (hq.withMutex (heldBy self 1))
  by_cases hshrink : ShrinkDue q₁.size q₁.capacity
  · obtain ⟨hnotFull, hfit⟩ := hshrink.fits
    obtain ⟨q₂, hresize, hq₂, hheld₂⟩ :=
      resizeBody_represents (hq₁.withMutex (heldBy self 2)) hnotFull hfit
    exact ⟨_, safeQueueDequeue_of_shrink hmutex hpos htake hheld₁ hshrink hresize hheld₂,
      hq₂.withMutex _, rfl⟩
  · exact ⟨_, safeQueueDequeue_of_not_shrink hmutex hpos htake hheld₁ hshrink,
      hq₁.withMutex _, rfl⟩

/-- An enqueue into a full ring returns a queue whose first slot was never written,
so it represents no list of items but the empty one. -/
theorem safeQueueEnqueue_full {q : SafeQueue α} (kind : MutexKind) (self : ThreadId) (item : α)
    (hq : WellFormed q) (hmutex : q.mutex = Mutex.free) (hfull : q.size = q.capacity) :
    ∃ q', safeQueueEnqueue kind self q item = .ok q' ∧
      ∀ x items, ¬ Represents q' (x :: items) := by
  have hcap : 0 < q.capacity := (Nat.zero_le _).trans_lt hq.front_lt
  have hresize := resizeBody_full (q.capacity * 2)
    (hq.withMutex (heldBy self 1)) hfull
  have hrear : q.size < (List.replicate (q.capacity * 2) (none : Option α)).length := by
    rw [List.length_replicate]
    omega
  refine ⟨_, safeQueueEnqueue_of_full hmutex hfull hresize rfl (if_pos hrear) rfl, ?_⟩
  intro x items hrep
  have hhead := hrep.holds.head hrep.wellFormed.front_lt
  change ((List.replicate (q.capacity * 2) none).set q.size (some item))[0]? = _ at hhead
  rw [List.getElem?_set_ne (by omega), List.getElem?_replicate, if_pos (by omega)] at hhead
  simp at hhead

/-! ## Sequences of calls -/

/-- Every state along a sequence that never stores into a full ring represents the
list, and the mutex is free again. -/
theorem runAll_represents {calls : List (ThreadId × Call α)} (h : NeverStoresIntoFull calls) :
    ∀ pre, pre <+: calls → ∀ items outs, runAll fifoCall pre [] = some (items, outs) →
      ∃ q, runAll (call .recursive) pre safeQueueCreate = .ok (q, outs.map some) ∧
        Represents q items ∧ q.mutex = Mutex.free := by
  intro pre
  -- the last call of the prefix acts on the state that the earlier ones lead to
  induction pre using List.reverseRecOn with
  | nil =>
    rintro - items outs hfifo
    obtain ⟨rfl, rfl⟩ : [] = items ∧ [] = outs := by simpa using hfifo
    exact ⟨safeQueueCreate, rfl, represents_create, rfl⟩
  | append_singleton pre c ih =>
    intro hpre items outs hfifo
    rw [runAll_snoc] at hfifo
    obtain ⟨⟨before, outs₁⟩, hbefore, hfifo⟩ := Option.bind_eq_some_iff.mp hfifo
    obtain ⟨⟨after, out⟩, hafter, hfifo⟩ := Option.bind_eq_some_iff.mp hfifo
    obtain ⟨rfl, rfl⟩ : after = items ∧ outs₁ ++ out = outs := by simpa using hfifo
    obtain ⟨q, hrun, hq, hmutex⟩ :=
      ih ((List.prefix_append pre [c]).trans hpre) before outs₁ hbefore
    obtain ⟨self, c⟩ := c
    cases c with
    | enqueue item =>
      obtain ⟨rfl, rfl⟩ : before ++ [item] = after ∧ [] = out := by simpa [fifoCall] using hafter
      have hnotFull : q.size ≠ q.capacity := h pre self item hpre q _ hrun
      obtain ⟨q', henq, hq', hmutex'⟩ :=
        safeQueueEnqueue_represents .recursive self item hq hmutex hnotFull
      refine ⟨q', ?_, hq', hmutex'⟩
      simp [runAll_snoc, hrun, call, henq]
    | dequeue =>
      cases before with
      | nil => simp [fifoCall] at hafter
      | cons x xs =>
        obtain ⟨rfl, rfl⟩ : xs = after ∧ [x] = out := by simpa [fifoCall] using hafter
        obtain ⟨q', hdeq, hq', hmutex'⟩ := safeQueueDequeue_represents self hq hmutex
        refine ⟨q', ?_, hq', hmutex'⟩
        simp [runAll_snoc, hrun, call, hdeq]

/-- **FIFO refinement**: the queue behaves as a list along a sequence of calls
exactly when no enqueue of the sequence meets a full ring. -/
theorem behavesAsFifo_iff (calls : List (ThreadId × Call α)) (hcalls : DequeuesOnlyQueued calls) :
    BehavesAsFifo calls ↔ NeverStoresIntoFull calls := by
  constructor
  · intro h pre self item hpre q outs hrun hfull
    have hpre' : pre <+: calls := (List.prefix_append pre _).trans hpre
    obtain ⟨⟨items, outs₁⟩, hfifo⟩ :=
      Option.isSome_iff_exists.mp (runAll_isSome_left hpre' hcalls)
    obtain ⟨q₁, outs₂, hrun₁, hq₁, hmutex, -⟩ := runAll_recursive_wellFormed hfifo
    obtain ⟨rfl, -⟩ : q = q₁ ∧ outs = outs₂ := by
      rw [hrun] at hrun₁
      simpa using hrun₁
    have hfifo' : runAll fifoCall (pre ++ [(self, .enqueue item)]) [] =
        some (items ++ [item], outs₁) := by
      simp [runAll_snoc, hfifo, fifoCall]
    obtain ⟨q₂, hrun₂, hq₂⟩ := h _ hpre _ _ hfifo'
    -- the enqueue into the full ring succeeds, and what it stores is not the longer list
    obtain ⟨q₃, henq, hlost⟩ := safeQueueEnqueue_full .recursive self item hq₁
      hmutex hfull
    obtain rfl : q₃ = q₂ := by
      simp [runAll_snoc, hrun, call, henq] at hrun₂
      exact hrun₂.1
    obtain ⟨x, xs, hcons⟩ := List.exists_cons_of_ne_nil (List.append_ne_nil_of_right_ne_nil items
      (List.cons_ne_nil item []))
    exact hlost x xs (hcons ▸ hq₂)
  · intro h pre hpre items outs hfifo
    obtain ⟨q, hrun, hq, -⟩ := runAll_represents h pre hpre items outs hfifo
    exact ⟨q, hrun, hq⟩

/-- The ring shrinks twice, down to 32 slots, and then its end wraps around. -/
def wrapped : List (ThreadId × Call ℕ) :=
  (List.range 34).map (fun i => (0, .enqueue i)) ++ List.replicate 22 (1, .dequeue) ++
    (List.range 18).map (fun i => (0, .enqueue (34 + i))) ++ List.replicate 2 (1, .dequeue)

example : (runAll (call .recursive) wrapped safeQueueCreate).map
    (fun s => (s.1.capacity, s.1.size, s.1.front, s.1.rear)) = .ok (32, 28, 6, 2) := by
  decide +kernel

theorem neverStoresIntoFull_wrapped : NeverStoresIntoFull wrapped := by
  have hroom : ∀ pre ∈ wrapped.inits,
      ∀ s ∈ (runAll (call .recursive) pre safeQueueCreate).toOption, s.1.size ≠ s.1.capacity := by
    decide +kernel
  intro pre self item hpre q outs hrun
  exact of_mem_inits (P := fun q => q.size ≠ q.capacity) hroom
    ((List.prefix_append pre _).trans hpre) hrun

theorem behavesAsFifo_iff_wrapped : DequeuesOnlyQueued wrapped ∧ BehavesAsFifo wrapped :=
  have hcalls : DequeuesOnlyQueued wrapped := by decide +kernel
  ⟨hcalls, (behavesAsFifo_iff wrapped hcalls).mpr neverStoresIntoFull_wrapped⟩

/-- One item more than the initial capacity, then a dequeue. -/
def overfill : List (ThreadId × Call ℕ) :=
  (List.range (initialCapacity + 1)).map (fun i => (0, .enqueue i)) ++ [(0, .dequeue)]

/-- The dequeue reads a slot that was never written instead of the item `0`. -/
theorem not_behavesAsFifo_overfill : ¬ BehavesAsFifo overfill := by
  intro h
  have hfifo : runAll fifoCall overfill [] = some ((List.range initialCapacity).map (· + 1), [0]) := by
    decide +kernel
  obtain ⟨q, hrun, -⟩ := h overfill (List.prefix_refl _) _ _ hfifo
  have hread : (runAll (call .recursive) overfill safeQueueCreate).map Prod.snd = .ok [none] := by
    decide +kernel
  rw [hrun] at hread
  simp [Except.map] at hread

end NetworkServers.Queue
