import NetworkServers.Http.QueueRing
import NetworkServers.Library.Runs

/-!
# Several Producers

Any number of threads call the queue of `src/src/queue.c` at the same time.
`safe_queue_enqueue` tests for a full ring before it locks the mutex, so its call is up
to three steps: the test, the locked body of `safe_queue_resize` with the capacity that
the test has found, and the locked body of the enqueue. A dequeue is one step. Other
threads take steps in between, and what the test has found may no longer be true when
the body acts on it.
-/

namespace NetworkServers.Queue

open NetworkServers.Ring NetworkServers.Runs NetworkServers.Machine

variable {ι α : Type}

/-! ## Threads -/

/-- An item with its number in the order in which the items are stored. -/
structure Ticket (α : Type) where
  number : ℕ
  item : α
deriving DecidableEq, Repr

/-- Where a thread is in `safe_queue_enqueue`. -/
inductive Producer (α : Type) where
  /-- Not in `safe_queue_enqueue`. -/
  | idle
  /-- About to resize: the test has found a full ring. -/
  | growing (item : α) (newCapacity : ℕ)
  /-- About to lock the mutex for its item. -/
  | storing (item : α)
deriving DecidableEq, Repr

/-- The queue and its callers. `dequeued` are the numbers of the items that have been
returned; `overwritten` are those of items that an enqueue has replaced before. -/
structure Shared (ι α : Type) where
  queue : SafeQueue (Ticket α)
  producer : ι → Producer α
  enqueued : ℕ
  dequeued : List ℕ
  overwritten : List ℕ
  fault : Option Fault

/-- The atomic steps of a thread. -/
inductive QueueStep (ι α : Type) where
  /-- `safe_queue_enqueue` is called and tests for a full ring. -/
  | test (i : ι) (item : α)
  /-- The locked body of `safe_queue_resize`, called by `safe_queue_enqueue`. -/
  | resize (i : ι)
  /-- The locked body of `safe_queue_enqueue`. -/
  | enqueue (i : ι)
  /-- The locked body of `safe_queue_dequeue`. -/
  | dequeue (i : ι)

/-- A new queue, and nobody in `safe_queue_enqueue`. -/
def Shared.initial : Shared ι α where
  queue := safeQueueCreate
  producer _ := .idle
  enqueued := 0
  dequeued := []
  overwritten := []
  fault := none

/-- The body of `safe_queue_dequeue` behind its wait. -/
def dequeueBody (q : SafeQueue α) : Except Fault (Option α × SafeQueue α) := do
  let (item, q) ← takeFront q
  let q ← if ShrinkDue q.size q.capacity then resizeBody q (q.capacity / 2) else pure q
  return (item, q)

/-- The item not yet dequeued in the slot that the next enqueue writes. -/
def Shared.victim (s : Shared ι α) : List ℕ :=
  match s.queue.data[s.queue.rear]? with
  | some (some ticket) => if ticket.number ∈ s.dequeued then [] else [ticket.number]
  | _ => []

/-- A body that goes wrong leaves a queue on which nothing happens any more. -/
def Shared.proceed (s : Shared ι α) : Except Fault (Shared ι α) → Shared ι α
  | .ok t => t
  | .error fault => { s with fault := some fault }

section Steps

variable [DecidableEq ι]

/-- One step of one thread. -/
def Shared.step (s : Shared ι α) : QueueStep ι α → Option (Shared ι α)
  | .test i item =>
    match s.fault, s.producer i with
    | none, .idle =>
      -- the capacity is read here, before any lock is taken
      let next := if s.queue.size = s.queue.capacity then .growing item (s.queue.capacity * 2)
        else .storing item
      some { s with producer := Function.update s.producer i next }
    | _, _ => none
  | .resize i =>
    match s.fault, s.producer i with
    | none, .growing item newCapacity => some <| s.proceed do
      let queue ← resizeBody s.queue newCapacity
      return { s with queue, producer := Function.update s.producer i (.storing item) }
    | _, _ => none
  | .enqueue i =>
    match s.fault, s.producer i with
    | none, .storing item => some <| s.proceed do
      let queue ← enqueueBody s.queue { number := s.enqueued, item }
      return { s with
        queue
        producer := Function.update s.producer i .idle
        enqueued := s.enqueued + 1
        overwritten := s.overwritten ++ s.victim }
    | _, _ => none
  | .dequeue i =>
    match s.fault, s.producer i with
    | none, .idle =>
      if s.queue.size = 0 then none
      else some <| s.proceed do
        let (ticket, queue) ← dequeueBody s.queue
        return { s with
          queue
          dequeued := s.dequeued ++ (ticket.map Ticket.number).toList }
    | _, _ => none

/-- The steps as a relation. -/
def QueueSteps (s : Shared ι α) (l : QueueStep ι α) (t : Shared ι α) : Prop := s.step l = some t

end Steps

/-- The indices are in range, and no enqueue has replaced an item that was still to be
dequeued. -/
structure Shared.Safe (s : Shared ι α) : Prop where
  fault : s.fault = none
  size_le : s.queue.size ≤ s.queue.capacity
  front_lt : s.queue.front < s.queue.capacity
  rear_lt : s.queue.rear < s.queue.capacity
  overwritten : s.overwritten = []

/-- What the test has found still holds when the body acts on it: there is a free slot,
in the ring as it is or in the larger one. -/
def StillHasRoom (s : Shared ι α) : QueueStep ι α → Prop
  | .test _ _ => True
  | .resize i => ∀ item newCapacity, s.producer i = .growing item newCapacity →
    s.queue.size < newCapacity
  | .enqueue _ => s.queue.size < s.queue.capacity
  | .dequeue _ => True

/-! ## What one step does -/

section StepCases

variable [DecidableEq ι] {s t : Shared ι α}

theorem test_cases {i : ι} {item : α} (h : QueueSteps s (.test i item) t) :
    ∃ next, t = { s with producer := Function.update s.producer i next } ∧
      (s.queue.size = s.queue.capacity ∧ next = .growing item (s.queue.capacity * 2) ∨
        s.queue.size ≠ s.queue.capacity ∧ next = .storing item) := by
  simp only [QueueSteps, Shared.step] at h
  split at h
  · refine ⟨_, (Option.some.inj h).symm, ?_⟩
    split
    · exact .inl ⟨‹_›, rfl⟩
    · exact .inr ⟨‹_›, rfl⟩
  · cases h

theorem resize_cases {i : ι} (h : QueueSteps s (.resize i) t) :
    ∃ item newCapacity, s.producer i = .growing item newCapacity ∧
      t = s.proceed (do
        let queue ← resizeBody s.queue newCapacity
        return { s with queue, producer := Function.update s.producer i (.storing item) }) := by
  simp only [QueueSteps, Shared.step] at h
  split at h
  · exact ⟨_, _, ‹_›, (Option.some.inj h).symm⟩
  · cases h

theorem enqueue_cases {i : ι} (h : QueueSteps s (.enqueue i) t) :
    ∃ item, s.producer i = .storing item ∧
      t = s.proceed (do
        let queue ← enqueueBody s.queue { number := s.enqueued, item }
        return { s with
          queue
          producer := Function.update s.producer i .idle
          enqueued := s.enqueued + 1
          overwritten := s.overwritten ++ s.victim }) := by
  simp only [QueueSteps, Shared.step] at h
  split at h
  · exact ⟨_, ‹_›, (Option.some.inj h).symm⟩
  · cases h

theorem dequeue_cases {i : ι} (h : QueueSteps s (.dequeue i) t) :
    0 < s.queue.size ∧
      t = s.proceed (do
        let (ticket, queue) ← dequeueBody s.queue
        return { s with
          queue
          dequeued := s.dequeued ++ (ticket.map Ticket.number).toList }) := by
  simp only [QueueSteps, Shared.step] at h
  split at h
  · split at h
    · cases h
    · exact ⟨Nat.pos_of_ne_zero ‹_›, (Option.some.inj h).symm⟩
  · cases h

end StepCases

/-! ## Items outside of the ring -/

/-- Every item still to be dequeued is in one of the slots between `front` and `rear`. -/
def InRing (q : SafeQueue (Ticket α)) (dequeued : List ℕ) : Prop :=
  ∀ slot ticket, q.data[slot]? = some (some ticket) → ticket.number ∉ dequeued →
    ∃ k, k < q.size ∧ slot = (q.front + k) % q.capacity

section InRing

variable {q q' : SafeQueue (Ticket α)} {dequeued : List ℕ} {ticket : Ticket α}

/-- The slot behind the last item holds no item still to be dequeued. -/
theorem InRing.free_rear (h : InRing q dequeued) (hq : WellFormed q) (hroom : q.size < q.capacity)
    (hslot : q.data[q.rear]? = some (some ticket)) : ticket.number ∈ dequeued := by
  by_contra hnot
  obtain ⟨k, hk, hrear⟩ := h _ _ hslot hnot
  rw [hq.rear_eq] at hrear
  exact slot_ne hq.front_lt hk hroom hrear.symm

theorem InRing.enqueueBody (h : InRing q dequeued) (hq : WellFormed q)
    (hroom : q.size < q.capacity) (ticket : Ticket α) :
    ∃ q', enqueueBody q ticket = .ok q' ∧ WellFormed q' ∧ InRing q' dequeued ∧
      q'.size = q.size + 1 ∧ q'.capacity = q.capacity := by
  obtain ⟨q', hbody, hq', hsize, hcapacity, -⟩ := enqueueBody_wellFormed hq hroom ticket
  refine ⟨q', hbody, hq', ?_, hsize, hcapacity⟩
  rw [Queue.enqueueBody, if_pos hq.rear_lt, Except.ok.injEq] at hbody
  subst hbody
  intro slot other hslot hnot
  dsimp only at hslot ⊢
  by_cases hrear : q.rear = slot
  · exact ⟨q.size, Nat.lt_succ_self _, hrear.symm.trans hq.rear_eq⟩
  · rw [List.getElem?_set_ne hrear] at hslot
    obtain ⟨k, hk, heq⟩ := h slot other hslot hnot
    exact ⟨k, hk.trans (Nat.lt_succ_self _), heq⟩

/-- The item at `front` leaves the ring and is dequeued. -/
theorem InRing.takeFront (h : InRing q dequeued) (hq : WellFormed q) (hpos : 0 < q.size) :
    ∃ taken q', takeFront q = .ok (taken, q') ∧ WellFormed q' ∧
      InRing q' (dequeued ++ (taken.map Ticket.number).toList) ∧ q'.size = q.size - 1 ∧
      q'.capacity = q.capacity := by
  obtain ⟨taken, q', htake, hq', hsize, hcapacity, -⟩ := takeFront_wellFormed hq hpos
  refine ⟨taken, q', htake, hq', ?_, hsize, hcapacity⟩
  unfold Queue.takeFront at htake
  split at htake
  · cases htake
  rename_i front hfront
  obtain ⟨rfl, rfl⟩ := Prod.mk.inj (Except.ok.inj htake)
  intro slot other hslot hnot
  rw [List.mem_append, not_or] at hnot
  obtain ⟨k, hk, heq⟩ := h slot other hslot hnot.1
  cases k with
  | zero =>
    -- the slot is the one that has been read
    rw [slot_zero hq.front_lt] at heq
    rw [heq, hfront] at hslot
    obtain rfl := Option.some.inj hslot
    simp at hnot
  | succ k =>
    refine ⟨k, ?_, ?_⟩
    · show k < q.size - 1
      omega
    · rw [heq]
      exact (slot_start_succ _ _ _).symm

/-- Nothing is left outside of the new array: it is written up to `rear`, if at all. -/
theorem inRing_resizeBody (hq : WellFormed q) (dequeued : List ℕ) {newCapacity : ℕ}
    (hfit : q.size < newCapacity) :
    ∃ q', resizeBody q newCapacity = .ok q' ∧ WellFormed q' ∧ InRing q' dequeued ∧
      q'.size = q.size ∧ q'.capacity = newCapacity := by
  rcases Nat.lt_or_ge q.size q.capacity with hlt | hge
  · obtain ⟨data', hbody, hlength, hget⟩ := resizeBody_spec hq hlt hfit
    refine ⟨_, hbody, wellFormed_resized hlength hfit, ?_, rfl, rfl⟩
    intro slot other hslot _
    dsimp only at hslot ⊢
    rw [hget] at hslot
    split at hslot
    · rename_i hin
      exact ⟨slot, hin, by rw [Nat.zero_add, Nat.mod_eq_of_lt (hin.trans hfit)]⟩
    · simp [List.getElem?_replicate] at hslot
  · have hfull : q.size = q.capacity := le_antisymm hq.size_le hge
    refine ⟨_, resizeBody_full _ hq hfull, wellFormed_resized List.length_replicate hfit, ?_,
      rfl, rfl⟩
    intro slot other hslot _
    simp [List.getElem?_replicate] at hslot

theorem InRing.dequeueBody (h : InRing q dequeued) (hq : WellFormed q) (hpos : 0 < q.size) :
    ∃ taken q', dequeueBody q = .ok (taken, q') ∧ WellFormed q' ∧
      InRing q' (dequeued ++ (taken.map Ticket.number).toList) ∧ q'.size = q.size - 1 ∧
      (q'.capacity = q.capacity ∨ q'.size < q'.capacity) := by
  obtain ⟨taken, q₁, htake, hq₁, hring₁, hsize₁, hcapacity₁⟩ := h.takeFront hq hpos
  by_cases hshrink : ShrinkDue q₁.size q₁.capacity
  · obtain ⟨q₂, hresize, hq₂, hring₂, hsize₂, hcapacity₂⟩ := inRing_resizeBody hq₁
      (dequeued ++ (taken.map Ticket.number).toList) hshrink.fits.2
    refine ⟨taken, q₂, ?_, hq₂, hring₂, hsize₂.trans hsize₁, .inr ?_⟩
    · rw [Queue.dequeueBody, htake, ok_bind]
      simp only [if_pos hshrink, hresize, ok_bind]
      rfl
    · rw [hsize₂, hcapacity₂]
      exact hshrink.fits.2
  · refine ⟨taken, q₁, ?_, hq₁, hring₁, hsize₁, .inl hcapacity₁⟩
    rw [Queue.dequeueBody, htake, ok_bind]
    simp only [if_neg hshrink]
    rfl

end InRing

/-! ## The invariant -/

structure Shared.Inv (s : Shared ι α) : Prop where
  fault : s.fault = none
  wellFormed : WellFormed s.queue
  inRing : InRing s.queue s.dequeued
  overwritten : s.overwritten = []

theorem inv_initial : (Shared.initial : Shared ι α).Inv where
  fault := rfl
  wellFormed := wellFormed_create
  inRing := by
    intro slot ticket hslot _
    simp [Shared.initial, safeQueueCreate, List.getElem?_replicate] at hslot
  overwritten := rfl

theorem Shared.Inv.safe {s : Shared ι α} (h : s.Inv) : s.Safe where
  fault := h.fault
  size_le := h.wellFormed.size_le
  front_lt := h.wellFormed.front_lt
  rear_lt := by
    rw [← h.wellFormed.data_length]
    exact h.wellFormed.rear_lt
  overwritten := h.overwritten

section Inv

variable [DecidableEq ι] {s t : Shared ι α}

/-- **Step lemma**: a body that still has room keeps the invariant. -/
theorem Shared.Inv.step (h : s.Inv) {l : QueueStep ι α} (hroom : StillHasRoom s l)
    (hstep : QueueSteps s l t) : t.Inv := by
  cases l with
  | test i item =>
    obtain ⟨next, rfl, -⟩ := test_cases hstep
    exact ⟨h.fault, h.wellFormed, h.inRing, h.overwritten⟩
  | resize i =>
    obtain ⟨item, newCapacity, hproducer, rfl⟩ := resize_cases hstep
    obtain ⟨q', hbody, hq', hring, -⟩ :=
      inRing_resizeBody h.wellFormed s.dequeued (hroom item newCapacity hproducer)
    rw [hbody, ok_bind]
    exact ⟨h.fault, hq', hring, h.overwritten⟩
  | enqueue i =>
    obtain ⟨item, -, rfl⟩ := enqueue_cases hstep
    obtain ⟨q', hbody, hq', hring, -⟩ :=
      h.inRing.enqueueBody h.wellFormed hroom { number := s.enqueued, item }
    -- the slot at rear is free, so that the store overwrites nobody
    have hvictim : s.victim = [] := by
      unfold Shared.victim
      split
      · rename_i ticket hslot
        exact if_pos (h.inRing.free_rear h.wellFormed hroom hslot)
      · rfl
    rw [hbody, ok_bind, hvictim, List.append_nil]
    exact ⟨h.fault, hq', hring, h.overwritten⟩
  | dequeue i =>
    obtain ⟨hpos, rfl⟩ := dequeue_cases hstep
    obtain ⟨taken, q', hbody, hq', hring, -⟩ := h.inRing.dequeueBody h.wellFormed hpos
    rw [hbody, ok_bind]
    exact ⟨h.fault, hq', hring, h.overwritten⟩

/-- A body without room breaks the ring at once: it goes wrong, or an index ends up out of
range. -/
theorem stillHasRoom_of_safe {l : QueueStep ι α} (hstep : QueueSteps s l t) (hsafe : t.Safe) :
    StillHasRoom s l := by
  cases l with
  | test i item => trivial
  | resize i =>
    obtain ⟨item, newCapacity, hproducer, rfl⟩ := resize_cases hstep
    intro item' newCapacity' hproducer'
    obtain ⟨-, rfl⟩ := Producer.growing.inj (hproducer.symm.trans hproducer')
    cases hbody : resizeBody s.queue newCapacity with
    | error fault =>
      rw [hbody] at hsafe
      exact nomatch hsafe.fault
    | ok q' =>
      -- the resize has set rear to size and capacity to newCapacity, whatever it has copied
      rw [hbody] at hsafe
      have hrear := hsafe.rear_lt
      obtain ⟨data, -, hreturn⟩ := bind_eq_ok.mp hbody
      obtain rfl := Except.ok.inj hreturn
      exact hrear
  | enqueue i =>
    obtain ⟨item, -, rfl⟩ := enqueue_cases hstep
    cases hbody : enqueueBody s.queue { number := s.enqueued, item } with
    | error fault =>
      rw [hbody] at hsafe
      exact nomatch hsafe.fault
    | ok q' =>
      -- size + 1 is at most the capacity, which the body leaves alone
      rw [hbody] at hsafe
      have hsize := hsafe.size_le
      unfold enqueueBody at hbody
      split at hbody
      · obtain rfl := Except.ok.inj hbody
        exact hsize
      · cases hbody
  | dequeue i => trivial

/-- **Run lemma**: runs whose bodies still have room keep the invariant. -/
theorem run_inv {ls : List (QueueStep ι α)}
    (hrun : Run (Guarded StillHasRoom QueueSteps) Shared.initial ls t) : t.Inv :=
  hrun.invariant inv_initial fun _ _ _ h hstep => h.step hstep.1 hstep.2

/-- The queue is safe in all states of a run exactly if what the tests have found still
holds at every body. -/
theorem safe_iff_stillHasRoom {ls : List (QueueStep ι α)}
    (hrun : Run QueueSteps Shared.initial ls t) :
    (∀ ms u, ms <+: ls → Run QueueSteps Shared.initial ms u → u.Safe) ↔
      Run (Guarded StillHasRoom QueueSteps) Shared.initial ls t := by
  constructor
  · intro hsafe
    induction hrun with
    | nil => exact .nil
    | @snoc ls t u l hrun hlast ih =>
      apply (ih fun ms v hms => hsafe ms v (hms.trans (List.prefix_append ls [l]))).snoc
      exact ⟨stillHasRoom_of_safe hlast (hsafe _ u (List.prefix_refl _) (hrun.snoc hlast)), hlast⟩
  · intro hguarded ms u hms hreached
    obtain ⟨v, hv⟩ := hguarded.before hms
    obtain rfl := Run.unique hreached hv.unguarded
    exact (run_inv hv).safe

end Inv

/-- One thread stores an item, and another one takes it. -/
def oneItem : List (QueueStep (Fin 2) ℕ) := [.test 0 7, .enqueue 0, .dequeue 1]

theorem safe_iff_stillHasRoom_oneItem : ∃ t, Run QueueSteps Shared.initial oneItem t ∧
    ((∀ ms u, ms <+: oneItem → Run QueueSteps Shared.initial ms u → u.Safe) ↔
      Run (Guarded StillHasRoom QueueSteps) Shared.initial oneItem t) := by
  have hsome : (oneItem.foldlM Shared.step Shared.initial).isSome := by decide +kernel
  obtain ⟨t, ht⟩ := Option.isSome_iff_exists.mp hsome
  exact ⟨t, Run.of_foldlM ht, safe_iff_stillHasRoom (Run.of_foldlM ht)⟩

/-- 127 items are queued. Two threads find one free slot, and both store an item. -/
def twoProducers : List (QueueStep (Fin 2) Unit) :=
  (List.replicate 127 [.test 0 (), .enqueue 0]).flatten ++
    [.test 0 (), .test 1 (), .enqueue 0, .enqueue 1]

/-- The second item replaces the oldest one of the queue. -/
theorem not_safe_twoProducers : ¬ ∀ (ls : List (QueueStep (Fin 2) Unit)) t,
    Run QueueSteps Shared.initial ls t → t.Safe := by
  intro h
  have hlost : (twoProducers.foldlM Shared.step Shared.initial).map (fun t => t.overwritten) =
      some [0] := by
    decide +kernel
  obtain ⟨t, ht, hoverwritten⟩ := Option.map_eq_some_iff.mp hlost
  have hsafe := h _ t (Run.of_foldlM ht)
  rw [hsafe.overwritten] at hoverwritten
  cases hoverwritten

/-! ## One producer -/

/-- Nobody else is in `safe_queue_enqueue`, and what the producer's test has found holds. -/
structure OneProducer (i : ι) (s : Shared ι α) : Prop where
  others : ∀ j, j ≠ i → s.producer j = .idle
  growing : ∀ item newCapacity, s.producer i = .growing item newCapacity →
    s.queue.size < newCapacity
  storing : ∀ item, s.producer i = .storing item → s.queue.size < s.queue.capacity

section OneProducer

variable [DecidableEq ι] {i : ι} {s t : Shared ι α}

/-- Who is in `safe_queue_enqueue` is the producer. -/
theorem OneProducer.eq (h : OneProducer i s) {j : ι} (hj : s.producer j ≠ .idle) : j = i := by
  by_contra hne
  exact hj (h.others j hne)

theorem OneProducer.stillHasRoom (h : OneProducer i s) {l : QueueStep ι α}
    (hstep : QueueSteps s l t) : StillHasRoom s l := by
  cases l with
  | test j item => trivial
  | resize j =>
    intro item newCapacity hproducer
    obtain rfl := h.eq (by rw [hproducer]; exact fun heq => nomatch heq)
    exact h.growing item newCapacity hproducer
  | enqueue j =>
    obtain ⟨item, hproducer, -⟩ := enqueue_cases hstep
    obtain rfl := h.eq (by rw [hproducer]; exact fun heq => nomatch heq)
    exact h.storing item hproducer
  | dequeue j => trivial

/-- Dequeues of other threads make room, and nobody else takes it. -/
theorem OneProducer.step (h : OneProducer i s) (hinv : s.Inv) {l : QueueStep ι α}
    (hstep : QueueSteps s l t) (hsingle : ∀ j item, l = .test j item → j = i) :
    OneProducer i t := by
  cases l with
  | test j item =>
    obtain rfl := hsingle j item rfl
    obtain ⟨next, rfl, hnext⟩ := test_cases hstep
    have hfront := hinv.wellFormed.front_lt
    have hsize := hinv.wellFormed.size_le
    -- what the test has found is true now; the capacity it doubles is at least one
    refine ⟨fun k hk => ?_, fun item' newCapacity hproducer => ?_, fun item' hproducer => ?_⟩
    · exact (Function.update_of_ne hk _ _).trans (h.others k hk)
    · have hproducer := (Function.update_self j next s.producer).symm.trans hproducer
      rcases hnext with ⟨hfull, rfl⟩ | ⟨-, rfl⟩
      · obtain ⟨-, rfl⟩ := Producer.growing.inj hproducer
        show s.queue.size < s.queue.capacity * 2
        omega
      · cases hproducer
    · have hproducer := (Function.update_self j next s.producer).symm.trans hproducer
      rcases hnext with ⟨-, rfl⟩ | ⟨hnotFull, -⟩
      · cases hproducer
      · exact lt_of_le_of_ne hsize hnotFull
  | resize j =>
    obtain ⟨item, newCapacity, hproducer, rfl⟩ := resize_cases hstep
    obtain rfl := h.eq (by rw [hproducer]; exact fun heq => nomatch heq)
    have hfit := h.growing item newCapacity hproducer
    obtain ⟨q', hbody, -, -, hsize, hcapacity⟩ :=
      inRing_resizeBody hinv.wellFormed s.dequeued hfit
    rw [hbody, ok_bind]
    refine ⟨fun k hk => ?_, fun item' newCapacity' hproducer' => ?_, fun item' _ => ?_⟩
    · exact (Function.update_of_ne hk _ _).trans (h.others k hk)
    · exact nomatch (Function.update_self j _ s.producer).symm.trans hproducer'
    · show q'.size < q'.capacity
      rwa [hsize, hcapacity]
  | enqueue j =>
    obtain ⟨item, hproducer, rfl⟩ := enqueue_cases hstep
    obtain rfl := h.eq (by rw [hproducer]; exact fun heq => nomatch heq)
    obtain ⟨q', hbody, -⟩ := hinv.inRing.enqueueBody hinv.wellFormed (h.storing item hproducer)
      { number := s.enqueued, item }
    rw [hbody, ok_bind]
    refine ⟨fun k hk => ?_, fun item' newCapacity hproducer' => ?_, fun item' hproducer' => ?_⟩
    · exact (Function.update_of_ne hk _ _).trans (h.others k hk)
    · exact nomatch (Function.update_self j _ s.producer).symm.trans hproducer'
    · exact nomatch (Function.update_self j _ s.producer).symm.trans hproducer'
  | dequeue j =>
    obtain ⟨hpos, rfl⟩ := dequeue_cases hstep
    obtain ⟨taken, q', hbody, -, -, hsize, hcapacity⟩ :=
      hinv.inRing.dequeueBody hinv.wellFormed hpos
    rw [hbody, ok_bind]
    -- one item less; a shrink by the dequeue still leaves a free slot
    refine ⟨h.others, fun item newCapacity hproducer => ?_, fun item hproducer => ?_⟩
    · show q'.size < newCapacity
      have := h.growing item newCapacity hproducer
      omega
    · show q'.size < q'.capacity
      have := h.storing item hproducer
      omega

/-- As long as one thread only calls `safe_queue_enqueue`, all its tests still hold. -/
theorem run_oneProducer {ls : List (QueueStep ι α)} (hrun : Run QueueSteps Shared.initial ls t)
    (hsingle : ∀ l ∈ ls, ∀ j item, l = .test j item → j = i) :
    Run (Guarded StillHasRoom QueueSteps) Shared.initial ls t ∧ OneProducer i t := by
  induction hrun with
  | nil => exact ⟨.nil, fun _ _ => rfl, fun _ _ h => (nomatch h), fun _ h => (nomatch h)⟩
  | snoc _ hlast ih =>
    rw [List.forall_mem_append, List.forall_mem_singleton] at hsingle
    obtain ⟨hguarded, hone⟩ := ih hsingle.1
    exact ⟨hguarded.snoc ⟨hone.stillHasRoom hlast, hlast⟩,
      hone.step (run_inv hguarded) hlast hsingle.2⟩

end OneProducer

end NetworkServers.Queue
