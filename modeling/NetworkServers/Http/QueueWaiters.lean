import Mathlib.Logic.Relation
import NetworkServers.Http.QueueRing
import NetworkServers.Library.Runs

/-!
# Waiting for an Item

Threads in `safe_queue_enqueue` and `safe_queue_dequeue` of `src/src/queue.c`, one step at
a time, with the mutex and the condition variable `cond_var`. An empty queue makes its
consumer wait; a producer signals after each item. A waiter that has been woken has to
lock the mutex again, and other consumers may take the item before it does. Signals are
not counted, so what keeps an item from being left behind is a relation between the size
of the queue and the consumers that are still to look at it.

Resizing is left aside: no step here finds a full ring or is due for a shrink. The mutex is
the `holder` of the state, and not the one in `SafeQueue`.
-/

namespace NetworkServers.Queue

open NetworkServers.Runs

variable {ι α : Type}

/-! ## Threads -/

/-- Where a thread is. -/
inductive Place (α : Type) where
  /-- In neither of the two functions. -/
  | outside
  /-- Before the lock of `safe_queue_enqueue`. -/
  | arriving (item : α)
  /-- It has locked the mutex for its item. -/
  | storing (item : α)
  /-- Before `pthread_cond_signal`. -/
  | stored
  /-- Before the unlock of `safe_queue_enqueue`. -/
  | signalled
  /-- Before the lock of `safe_queue_dequeue`. -/
  | entering
  /-- At the test of the `while`, with the mutex. -/
  | testing
  /-- Blocked in `pthread_cond_wait`. -/
  | waiting
  /-- Woken in `pthread_cond_wait`, and about to lock the mutex. -/
  | woken
  /-- Before the unlock of `safe_queue_dequeue`. -/
  | taken (item : Option α)
deriving DecidableEq, Repr

/-- The queue, the holder of its mutex, and the places of all threads. -/
structure Monitor (ι α : Type) where
  queue : SafeQueue α
  holder : Option ι
  place : ι → Place α

/-- Nobody has called the queue yet. -/
def Monitor.initial : Monitor ι α where
  queue := safeQueueCreate
  holder := none
  place _ := .outside

/-- Blocked in `pthread_cond_wait`. -/
def Place.isBlocked : Place α → Bool
  | .waiting => true
  | _ => false

/-- Inside `safe_queue_dequeue`, and not blocked. -/
def Place.isAwake : Place α → Bool
  | .entering | .testing | .woken | .taken _ => true
  | _ => false

/-- Awake, and still to look at the queue. -/
def Place.isSearching : Place α → Bool
  | .entering | .testing | .woken => true
  | _ => false

/-- Between an item and its signal. -/
def Place.isStored : Place α → Bool
  | .stored => true
  | _ => false

/-- Between a lock and the next unlock. -/
def Place.hasMutex : Place α → Bool
  | .storing _ | .stored | .signalled | .testing | .taken _ => true
  | _ => false

/-- Where a thread that waits for the mutex goes on with it. -/
def Place.locked : Place α → Option (Place α)
  | .arriving item => some (.storing item)
  | .entering | .woken => some .testing
  | _ => none

/-- A thread that is about to unlock the mutex and return. -/
def Place.isReturning : Place α → Bool
  | .signalled | .taken _ => true
  | _ => false

section Steps

variable [DecidableEq ι]

/-- One thread goes to another place. -/
def Monitor.move (s : Monitor ι α) (i : ι) (place : Place α) : Monitor ι α :=
  { s with place := Function.update s.place i place }

/-- One step of one thread. -/
inductive MonitorStep : Monitor ι α → Monitor ι α → Prop where
  /-- `safe_queue_enqueue` is called and finds a ring that is not full. -/
  | callEnqueue {s : Monitor ι α} {i : ι} (item : α) :
      s.place i = .outside → s.queue.size ≠ s.queue.capacity →
      MonitorStep s (s.move i (.arriving item))
  /-- `safe_queue_dequeue` is called. -/
  | callDequeue {s : Monitor ι α} {i : ι} :
      s.place i = .outside → MonitorStep s (s.move i .entering)
  /-- `pthread_mutex_lock`, also the one at the end of `pthread_cond_wait`. -/
  | lock {s : Monitor ι α} {i : ι} {place : Place α} :
      s.holder = none → (s.place i).locked = some place →
      MonitorStep s { s.move i place with holder := some i }
  /-- The item is stored. -/
  | store {s : Monitor ι α} {i : ι} {item : α} {queue : SafeQueue α} :
      s.place i = .storing item → enqueueBody s.queue item = .ok queue →
      MonitorStep s { s.move i .stored with queue }
  /-- `pthread_cond_signal` wakes one of the waiters. -/
  | signal {s : Monitor ι α} {i j : ι} :
      s.place i = .stored → s.place j = .waiting →
      MonitorStep s ((s.move i .signalled).move j .woken)
  /-- `pthread_cond_signal` without a waiter. -/
  | signalNobody {s : Monitor ι α} {i : ι} :
      s.place i = .stored → (∀ j, s.place j ≠ .waiting) →
      MonitorStep s (s.move i .signalled)
  /-- `pthread_cond_wait` gives the mutex back and blocks. -/
  | wait {s : Monitor ι α} {i : ι} :
      s.place i = .testing → s.queue.size = 0 →
      MonitorStep s { s.move i .waiting with holder := none }
  /-- `pthread_cond_wait` wakes up without a signal. -/
  | wakeUp {s : Monitor ι α} {i : ι} :
      s.place i = .waiting → MonitorStep s (s.move i .woken)
  /-- An item is taken. -/
  | take {s : Monitor ι α} {i : ι} {item : Option α} {queue : SafeQueue α} :
      s.place i = .testing → s.queue.size ≠ 0 → takeFront s.queue = .ok (item, queue) →
      ¬ ShrinkDue queue.size queue.capacity →
      MonitorStep s { s.move i (.taken item) with queue }
  /-- `pthread_mutex_unlock`, and the function returns. -/
  | unlock {s : Monitor ι α} {i : ι} :
      (s.place i).isReturning = true → MonitorStep s { s.move i .outside with holder := none }

end Steps

/-- What the threads may make of a new queue. -/
def Monitor.Reachable [DecidableEq ι] (s : Monitor ι α) : Prop :=
  Relation.ReflTransGen MonitorStep Monitor.initial s

/-! ## The invariant -/

/-- Who is between lock and unlock holds the mutex. While somebody is blocked, there are at
least as many consumers still to look at the queue as there are items in it, or as many
but one where a producer is about to signal. -/
structure Monitor.Inv [Fintype ι] (s : Monitor ι α) : Prop where
  holder : ∀ i, (s.place i).hasMutex = true → s.holder = some i
  searched : numberOf Place.isBlocked s.place = 0 ∨
    s.queue.size ≤ numberOf Place.isSearching s.place + numberOf Place.isStored s.place

section Holder

variable [DecidableEq ι] {s : Monitor ι α} {i : ι} {place : Place α}

/-- A thread that does not get the mutex moves. -/
theorem holder_move (h : ∀ j, (s.place j).hasMutex = true → s.holder = some j)
    (hmove : place.hasMutex = true → (s.place i).hasMutex = true) :
    ∀ j, ((s.move i place).place j).hasMutex = true → s.holder = some j := by
  intro j hj
  unfold Monitor.move at hj
  by_cases hji : j = i
  · subst hji
    simp only [Function.update_self] at hj
    exact h j (hmove hj)
  · simp only [Function.update_of_ne hji] at hj
    exact h j hj

/-- The mutex is free, and a thread locks it. -/
theorem holder_lock (h : ∀ j, (s.place j).hasMutex = true → s.holder = some j)
    (hfree : s.holder = none) :
    ∀ j, ((s.move i place).place j).hasMutex = true → some i = some j := by
  intro j hj
  unfold Monitor.move at hj
  by_cases hji : j = i
  · rw [hji]
  · simp only [Function.update_of_ne hji] at hj
    rw [h j hj] at hfree
    cases hfree

/-- The holder gives the mutex back. -/
theorem holder_unlock (h : ∀ j, (s.place j).hasMutex = true → s.holder = some j)
    (hmutex : (s.place i).hasMutex = true) (hmove : place.hasMutex = false) :
    ∀ j, ((s.move i place).place j).hasMutex = true → none = some j := by
  intro j hj
  unfold Monitor.move at hj
  by_cases hji : j = i
  · subst hji
    simp only [Function.update_self] at hj
    rw [hmove] at hj
    cases hj
  · simp only [Function.update_of_ne hji] at hj
    exact absurd (Option.some.inj ((h i hmutex).symm.trans (h j hj))) (Ne.symm hji)

end Holder

theorem Monitor.inv_initial [Fintype ι] : (Monitor.initial : Monitor ι α).Inv where
  holder := by
    intro i h
    cases h
  searched := .inr (Nat.zero_le _)

section Inv

variable [DecidableEq ι] [Fintype ι] {s t : Monitor ι α}

/-- How many threads are at some kind of place, after one has moved. -/
theorem numberOf_move (s : Monitor ι α) (i : ι) (place : Place α) (p : Place α → Bool) :
    numberOf p (s.move i place).place + (p (s.place i)).toNat =
      numberOf p s.place + (p place).toNat :=
  numberOf_update p s.place i place

/-- A thread that does not block moves, and the size of the queue changes by no more than the
thread makes up for. -/
theorem Monitor.Inv.searched_move (h : s.Inv) {i : ι} {place place' : Place α} {size : ℕ}
    (hplace : s.place i = place) (hawake : place'.isBlocked = false)
    (hbalance : size + place.isSearching.toNat + place.isStored.toNat ≤
      s.queue.size + place'.isSearching.toNat + place'.isStored.toNat) :
    numberOf Place.isBlocked (s.move i place').place = 0 ∨
      size ≤ numberOf Place.isSearching (s.move i place').place +
        numberOf Place.isStored (s.move i place').place := by
  have hblocked := numberOf_move s i place' Place.isBlocked
  have hsearching := numberOf_move s i place' Place.isSearching
  have hstored := numberOf_move s i place' Place.isStored
  rw [hplace] at hblocked hsearching hstored
  rw [hawake, Bool.toNat_false] at hblocked
  rcases h.searched with hnone | hsize
  · left
    omega
  · right
    omega

/-- A producer wakes a waiter: the waiter searches in place of the signal. -/
theorem Monitor.Inv.searched_signal (h : s.Inv) {i j : ι} (hi : s.place i = .stored)
    (hj : s.place j = .waiting) :
    numberOf Place.isBlocked ((s.move i .signalled).move j .woken).place = 0 ∨
      s.queue.size ≤ numberOf Place.isSearching ((s.move i .signalled).move j .woken).place +
        numberOf Place.isStored ((s.move i .signalled).move j .woken).place := by
  have hne : j ≠ i := by
    rintro rfl
    exact nomatch hi.symm.trans hj
  have hj' : (s.move i .signalled).place j = .waiting :=
    (Function.update_of_ne hne _ _).trans hj
  -- the counts after the producer's move, and after the waiter's
  have hblocked := numberOf_move s i .signalled Place.isBlocked
  have hsearching := numberOf_move s i .signalled Place.isSearching
  have hstored := numberOf_move s i .signalled Place.isStored
  have hblocked' := numberOf_move (s.move i .signalled) j .woken Place.isBlocked
  have hsearching' := numberOf_move (s.move i .signalled) j .woken Place.isSearching
  have hstored' := numberOf_move (s.move i .signalled) j .woken Place.isStored
  rw [hi] at hblocked hsearching hstored
  rw [hj'] at hblocked' hsearching' hstored'
  simp only [Place.isBlocked, Place.isSearching, Place.isStored, Bool.toNat_false,
    Bool.toNat_true] at hblocked hsearching hstored hblocked' hsearching' hstored'
  -- one signal less, one searcher more
  rcases h.searched with hnone | hsize
  · left
    omega
  · right
    omega

/-- The mutex is locked from one of three places. -/
theorem Place.locked_cases {place place' : Place α} (h : place.locked = some place') :
    place'.isBlocked = false ∧ place'.isSearching = place.isSearching ∧
      place'.isStored = false ∧ place.isStored = false := by
  cases place <;> simp_all [Place.locked]
  all_goals (subst h; exact ⟨rfl, rfl, rfl, rfl⟩)

/-- **Step lemma.** -/
theorem Monitor.Inv.step (h : s.Inv) (hstep : MonitorStep s t) : t.Inv := by
  cases hstep with
  | callEnqueue item hplace _ =>
    exact ⟨holder_move h.holder (fun hm => nomatch hm), h.searched_move hplace rfl le_rfl⟩
  | callDequeue hplace =>
    exact ⟨holder_move h.holder (fun hm => nomatch hm),
      h.searched_move hplace rfl (Nat.le_succ _)⟩
  | @lock i place hfree hlocked =>
    obtain ⟨hblocked, hsearching, hstored', hstored⟩ := Place.locked_cases hlocked
    refine ⟨holder_lock h.holder hfree, h.searched_move rfl hblocked ?_⟩
    rw [hsearching, hstored', hstored]
    exact le_rfl
  | @store i item queue hplace hbody =>
    -- one more item, and a producer who has still to signal
    have hsize : queue.size = s.queue.size + 1 := by
      unfold enqueueBody at hbody
      split at hbody
      · rw [← Except.ok.inj hbody]
      · cases hbody
    refine ⟨holder_move h.holder (fun _ => by rw [hplace]; rfl), h.searched_move hplace rfl ?_⟩
    exact hsize.le
  | @signal i j hi hj =>
    refine ⟨holder_move (holder_move h.holder fun _ => by rw [hi]; rfl) (fun hm => nomatch hm), ?_⟩
    exact h.searched_signal hi hj
  | @signalNobody i hi hnone =>
    -- the signal is lost, but only because nobody is blocked
    refine ⟨holder_move h.holder (fun _ => by rw [hi]; rfl), .inl ?_⟩
    have hblocked := numberOf_move s i .signalled Place.isBlocked
    have hzero : numberOf Place.isBlocked s.place = 0 := by
      rw [numberOf_eq_zero]
      intro j
      have := hnone j
      cases hplace : s.place j <;> simp_all [Place.isBlocked]
    rw [hi, hzero] at hblocked
    simpa [Place.isBlocked] using hblocked
  | @wait i hplace hempty =>
    -- a consumer goes to sleep under the mutex, and so with an empty queue in front of it
    refine ⟨holder_unlock h.holder (by rw [hplace]; rfl) rfl, .inr ?_⟩
    show s.queue.size ≤ _
    rw [hempty]
    exact Nat.zero_le _
  | wakeUp hplace =>
    exact ⟨holder_move h.holder (fun hm => nomatch hm),
      h.searched_move hplace rfl (Nat.le_succ _)⟩
  | @take i item queue hplace hpos htake _ =>
    -- one searcher less, and one item less
    have hsize : queue.size = s.queue.size - 1 := by
      unfold takeFront at htake
      split at htake
      · cases htake
      · rw [← (Prod.mk.inj (Except.ok.inj htake)).2]
    refine ⟨holder_move h.holder (fun _ => by rw [hplace]; rfl), h.searched_move hplace rfl ?_⟩
    show queue.size + 1 ≤ s.queue.size
    omega
  | @unlock i hreturning =>
    -- whoever returns has neither an item to find nor a signal to give
    have hold : (s.place i).hasMutex = true ∧ (s.place i).isSearching = false ∧
        (s.place i).isStored = false := by
      cases hplace : s.place i <;> simp_all [Place.isReturning, Place.hasMutex, Place.isSearching,
        Place.isStored]
    refine ⟨holder_unlock h.holder hold.1 rfl, h.searched_move rfl rfl ?_⟩
    rw [hold.2.1, hold.2.2]
    rfl

theorem Monitor.Reachable.inv (h : s.Reachable) : s.Inv := by
  induction h with
  | refl => exact Monitor.inv_initial
  | tail _ hstep ih => exact ih.step hstep

omit [DecidableEq ι] in
/-- Nobody is before a signal while the mutex is free. -/
theorem Monitor.Inv.none_stored (h : s.Inv) (hfree : s.holder = none) :
    numberOf Place.isStored s.place = 0 := by
  rw [numberOf_eq_zero]
  intro i
  by_contra hi
  have hmutex : (s.place i).hasMutex = true := by
    cases hplace : s.place i <;> simp_all [Place.isStored, Place.hasMutex]
  rw [h.holder i hmutex] at hfree
  cases hfree

/-- **No lost wake-up**: while the mutex is free and somebody is blocked, at least as many
consumers are awake as there are items in the queue, so that no item is left to sleepers. -/
theorem no_lost_wakeUp (h : s.Reachable) (hfree : s.holder = none) :
    ((∀ i, s.place i ≠ .waiting) ∨ s.queue.size ≤ numberOf Place.isAwake s.place) ∧
      (∀ i, s.place i = .waiting → 0 < s.queue.size → ∃ j, (s.place j).isAwake = true) := by
  have hinv := h.inv
  have henough : numberOf Place.isBlocked s.place = 0 ∨
      s.queue.size ≤ numberOf Place.isAwake s.place := by
    -- with the mutex free no signal is outstanding, so that the searchers alone are enough
    refine hinv.searched.imp_right fun hsize => ?_
    rw [hinv.none_stored hfree, Nat.add_zero] at hsize
    apply hsize.trans (numberOf_mono _ s.place)
    intro place hplace
    cases place <;> first | rfl | cases hplace
  have hnobody : numberOf Place.isBlocked s.place = 0 → ∀ i, s.place i ≠ .waiting := by
    intro hnone i hi
    have hblocked := numberOf_eq_zero.mp hnone i
    rw [hi] at hblocked
    cases hblocked
  refine ⟨henough.imp_left hnobody, fun i hi hpos => ?_⟩
  rcases henough with hnone | hsize
  · exact absurd hi (hnobody hnone i)
  · by_contra hasleep
    have hzero : numberOf Place.isAwake s.place = 0 :=
      numberOf_eq_zero.mpr fun j => Bool.eq_false_iff.mpr fun hj => hasleep ⟨j, hj⟩
    omega

end Inv

/-- Two consumers block, and a producer stores an item and wakes one of them. -/
theorem no_lost_wakeUp_two : ∃ s : Monitor (Fin 3) ℕ, s.Reachable ∧ s.holder = none ∧
    s.place 1 = .waiting ∧ s.queue.size = 1 ∧
    (((∀ i, s.place i ≠ .waiting) ∨ s.queue.size ≤ numberOf Place.isAwake s.place) ∧
      (∀ i, s.place i = .waiting → 0 < s.queue.size → ∃ j, (s.place j).isAwake = true)) := by
  have h0 : (Monitor.initial : Monitor (Fin 3) ℕ).Reachable := .refl
  have h1 := h0.tail (.callDequeue (i := 0) rfl)
  have h2 := (h1.tail (.lock (i := 0) rfl rfl)).tail (.wait (i := 0) rfl rfl)
  have h3 := h2.tail (.callDequeue (i := 1) rfl)
  have h4 := (h3.tail (.lock (i := 1) rfl rfl)).tail (.wait (i := 1) rfl rfl)
  have h5 := h4.tail (.callEnqueue (i := 2) 7 rfl (by decide))
  have h6 := (h5.tail (.lock (i := 2) rfl rfl)).tail
    (.store (i := 2) rfl (if_pos wellFormed_create.rear_lt))
  have h7 := (h6.tail (.signal (i := 2) (j := 0) rfl rfl)).tail (.unlock (i := 2) rfl)
  exact ⟨_, h7, rfl, rfl, rfl, no_lost_wakeUp h7 rfl⟩

end NetworkServers.Queue
