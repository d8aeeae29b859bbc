import Mathlib.Logic.Relation
import NetworkServers.Http.QueueRing

/-!
# An Enqueue, Statement by Statement

`safe_queue_enqueue` of `src/src/queue.c` with the resize inside it as a machine: one step
for each statement that reads or writes the queue, so that a thread can be stopped at any
of them. Alone, the machine does what `safeQueueEnqueue` does at once.
-/

namespace NetworkServers.Queue

open NetworkServers.Machine

variable {α : Type}

/-- The statement that a thread in `safe_queue_enqueue` comes to next. -/
inductive EnqueuePoint (α : Type) where
  /-- The test for a full ring. -/
  | testing (item : α)
  /-- The lock of `safe_queue_resize`. -/
  | resizing (item : α) (newCapacity : ℕ)
  /-- The new array is allocated. -/
  | allocating (item : α) (newCapacity : ℕ)
  /-- The copy loop. -/
  | copying (item : α) (newCapacity i j : ℕ) (newData : List (Option α))
  /-- The old array is freed, and the new one takes its place. -/
  | replacing (item : α) (newCapacity : ℕ) (newData : List (Option α))
  | settingFront (item : α) (newCapacity : ℕ)
  | settingRear (item : α) (newCapacity : ℕ)
  | settingCapacity (item : α) (newCapacity : ℕ)
  /-- The unlock of `safe_queue_resize`. -/
  | resized (item : α)
  /-- The lock of `safe_queue_enqueue`. -/
  | locking (item : α)
  | storing (item : α)
  | advancing
  | counting
  | signalling
  | unlocking
deriving DecidableEq, Repr

/-- Between a lock and its unlock. -/
def EnqueuePoint.holdsMutex : EnqueuePoint α → Bool
  | .testing _ | .resizing _ _ | .locking _ => false
  | _ => true

/-- One statement of `safe_queue_enqueue`: the next one, `none` when the function returns, and
the queue. There is no step while another thread has the mutex, or out of the array. -/
def enqueueStep (self : ThreadId) (q : SafeQueue α) :
    EnqueuePoint α → Option (Option (EnqueuePoint α) × SafeQueue α)
  | .testing item =>
    if q.size = q.capacity then some (some (.resizing item (q.capacity * 2)), q)
    else some (some (.locking item), q)
  | .resizing item newCapacity =>
    match mutexLock .normal self q.mutex with
    | .ok m => some (some (.allocating item newCapacity), { q with mutex := m })
    | .error _ => none
  | .allocating item newCapacity =>
    some (some (.copying item newCapacity q.front 0 (List.replicate newCapacity none)), q)
  | .copying item newCapacity i j newData =>
    if i = q.rear then some (some (.replacing item newCapacity newData), q)
    else
      match q.data[i]? with
      | none => none
      | some slot =>
        if j < newData.length then
          some (some (.copying item newCapacity ((i + 1) % q.capacity) (j + 1)
            (newData.set j slot)), q)
        else none
  | .replacing item newCapacity newData =>
    some (some (.settingFront item newCapacity), { q with data := newData })
  | .settingFront item newCapacity =>
    some (some (.settingRear item newCapacity), { q with front := 0 })
  | .settingRear item newCapacity =>
    some (some (.settingCapacity item newCapacity), { q with rear := q.size })
  | .settingCapacity item newCapacity =>
    some (some (.resized item), { q with capacity := newCapacity })
  | .resized item => some (some (.locking item), { q with mutex := mutexUnlock q.mutex })
  | .locking item =>
    match mutexLock .normal self q.mutex with
    | .ok m => some (some (.storing item), { q with mutex := m })
    | .error _ => none
  | .storing item =>
    if q.rear < q.data.length then
      some (some .advancing, { q with data := q.data.set q.rear (some item) })
    else none
  | .advancing => some (some .counting, { q with rear := (q.rear + 1) % q.capacity })
  | .counting => some (some .signalling, { q with size := q.size + 1 })
  | .signalling => some (some .unlocking, q)
  | .unlocking => some (none, { q with mutex := mutexUnlock q.mutex })

/-! ## The mutex -/

/-- The mutex, as a thread at some statement has left it. Outside of the function it does not
hold the mutex. -/
def MutexFits (self : ThreadId) (m : Mutex) : Option (EnqueuePoint α) → Prop
  | some p => if p.holdsMutex then m = heldBy self 1 else m.holder ≠ some self
  | none => m.holder ≠ some self

section MutexFits

variable {self : ThreadId} {q q' : SafeQueue α}

/-- A lock succeeds only if the mutex was free. -/
theorem mutexLock_ok {m m' : Mutex} (hfree : m.holder ≠ some self)
    (h : mutexLock .normal self m = .ok m') : m' = heldBy self 1 := by
  unfold mutexLock at h
  split at h
  · exact (Except.ok.inj h).symm
  · rename_i holder hholder
    split at h
    · rename_i heq
      exact absurd (heq ▸ hholder) hfree
    · cases h

/-- **Step lemma** for the mutex. -/
theorem enqueueStep_mutexFits {p : EnqueuePoint α} {next : Option (EnqueuePoint α)}
    (h : MutexFits self q.mutex (some p)) (hstep : enqueueStep self q p = some (next, q')) :
    MutexFits self q'.mutex next := by
  have hfree : Mutex.free.holder ≠ some self := fun heq => nomatch heq
  -- only the two locks and the two unlocks touch the mutex
  cases p with
  | testing item =>
    simp only [enqueueStep] at hstep
    split at hstep <;>
    · obtain ⟨rfl, rfl⟩ := Prod.mk.inj (Option.some.inj hstep)
      exact h
  | resizing item newCapacity =>
    simp only [enqueueStep] at hstep
    split at hstep
    · rename_i m hlock
      obtain ⟨rfl, rfl⟩ := Prod.mk.inj (Option.some.inj hstep)
      exact mutexLock_ok h hlock
    · cases hstep
  | locking item =>
    simp only [enqueueStep] at hstep
    split at hstep
    · rename_i m hlock
      obtain ⟨rfl, rfl⟩ := Prod.mk.inj (Option.some.inj hstep)
      exact mutexLock_ok h hlock
    · cases hstep
  | copying item newCapacity i j newData =>
    simp only [enqueueStep] at hstep
    split at hstep
    · obtain ⟨rfl, rfl⟩ := Prod.mk.inj (Option.some.inj hstep)
      exact h
    · split at hstep
      · cases hstep
      · split at hstep
        · obtain ⟨rfl, rfl⟩ := Prod.mk.inj (Option.some.inj hstep)
          exact h
        · cases hstep
  | storing item =>
    simp only [enqueueStep] at hstep
    split at hstep
    · obtain ⟨rfl, rfl⟩ := Prod.mk.inj (Option.some.inj hstep)
      exact h
    · cases hstep
  | resized _ | unlocking =>
    obtain ⟨rfl, rfl⟩ := Prod.mk.inj (Option.some.inj hstep)
    have hheld : q.mutex = heldBy self 1 := h
    show (mutexUnlock q.mutex).holder ≠ some self
    rw [hheld]
    exact hfree
  | allocating _ _ | replacing _ _ _ | settingFront _ _ | settingRear _ _ | settingCapacity _ _
  | advancing | counting | signalling =>
    obtain ⟨rfl, rfl⟩ := Prod.mk.inj (Option.some.inj hstep)
    exact h

end MutexFits

/-! ## The machine alone -/

/-- A step of a thread that is not interrupted. -/
def AloneStep (self : ThreadId) (s t : Option (EnqueuePoint α) × SafeQueue α) : Prop :=
  ∃ p, s.1 = some p ∧ enqueueStep self s.2 p = some t

/-- The steps of a thread that is not interrupted. -/
abbrev Alone (self : ThreadId) : Option (EnqueuePoint α) × SafeQueue α →
    Option (EnqueuePoint α) × SafeQueue α → Prop :=
  Relation.ReflTransGen (AloneStep self)

section Alone

variable {self : ThreadId} {q q' : SafeQueue α} {item : α}

theorem alone_step {p : EnqueuePoint α} {next : Option (EnqueuePoint α)}
    {t : Option (EnqueuePoint α) × SafeQueue α} (hstep : enqueueStep self q p = some (next, q'))
    (hrest : Alone self (next, q') t) : Alone self (some p, q) t :=
  .head ⟨p, rfl, hstep⟩ hrest

/-- The copy loop runs to its end. -/
theorem alone_copying {newCapacity fuel : ℕ} {i j : ℕ} {newData out : List (Option α)}
    (h : copyLoop q.data q.rear q.capacity fuel i j newData = .ok out) :
    Alone self (some (.copying item newCapacity i j newData), q)
      (some (.replacing item newCapacity out), q) := by
  -- the loop of the locked body and the steps take the same turns
  induction fuel generalizing i j newData with
  | zero =>
    unfold copyLoop at h
    split at h
    · rename_i hend
      obtain rfl := Except.ok.inj h
      exact alone_step (by rw [enqueueStep, if_pos hend]) .refl
    · cases h
  | succ fuel ih =>
    unfold copyLoop at h
    split at h
    · rename_i hend
      obtain rfl := Except.ok.inj h
      exact alone_step (by rw [enqueueStep, if_pos hend]) .refl
    · rename_i hgoes
      split at h
      · cases h
      · rename_i slot hslot
        split at h
        · rename_i hfits
          apply alone_step _ (ih h)
          rw [enqueueStep, if_neg hgoes, hslot]
          exact if_pos hfits
        · cases h

/-- The resize does what `resizeBody` does, and gives the mutex back. -/
theorem alone_resizing {newCapacity : ℕ} (hfree : q.mutex = Mutex.free)
    (hbody : resizeBody { q with mutex := heldBy self 1 } newCapacity = .ok q') :
    Alone self (some (.resizing item newCapacity), q)
      (some (.locking item), { q' with mutex := Mutex.free }) := by
  obtain ⟨out, hcopy, hreturn⟩ := bind_eq_ok.mp hbody
  obtain rfl := Except.ok.inj hreturn
  have hlock : enqueueStep self q (.resizing item newCapacity) =
      some (some (.allocating item newCapacity), { q with mutex := heldBy self 1 }) := by
    rw [enqueueStep, hfree]
    rfl
  refine alone_step hlock (alone_step rfl ?_)
  apply (alone_copying hcopy).trans
  -- the new array and the three indices, and the unlock
  exact alone_step rfl (alone_step rfl (alone_step rfl (alone_step rfl (alone_step rfl .refl))))

/-- The body does what `enqueueBody` does, and gives the mutex back. -/
theorem alone_locking (hfree : q.mutex = Mutex.free)
    (hbody : enqueueBody { q with mutex := heldBy self 1 } item = .ok q') :
    Alone self (some (.locking item), q) (none, { q' with mutex := Mutex.free }) := by
  unfold enqueueBody at hbody
  split at hbody
  · rename_i hroom
    obtain rfl := Except.ok.inj hbody
    have hlock : enqueueStep self q (.locking item) =
        some (some (.storing item), { q with mutex := heldBy self 1 }) := by
      rw [enqueueStep, hfree]
      rfl
    refine alone_step hlock (alone_step (if_pos hroom) ?_)
    exact alone_step rfl (alone_step rfl (alone_step rfl (alone_step rfl .refl)))
  · cases hbody

/-- **Refinement**: alone on a well-formed ring with a free mutex, the statements come to the
queue that `safeQueueEnqueue` returns. -/
theorem alone_enqueue (hq : WellFormed q) (hfree : q.mutex = Mutex.free) (item : α) :
    ∃ q', safeQueueEnqueue .normal self q item = .ok q' ∧
      Alone self (some (.testing item), q) (none, q') := by
  by_cases hfull : q.size = q.capacity
  · have hfit : q.size < q.capacity * 2 := by
      have := hq.front_lt
      omega
    obtain ⟨q₁, hresize, hq₁, hsize₁, hcapacity₁, hheld₁⟩ :=
      resizeBody_wellFormed (hq.withMutex (heldBy self 1)) hfit
    obtain ⟨q₂, hbody, -, -, -, hheld₂⟩ := enqueueBody_wellFormed
      (hq₁.withMutex (heldBy self 1)) (by rw [hsize₁, hcapacity₁]; exact hfit) item
    refine ⟨_, safeQueueEnqueue_of_full hfree hfull hresize hheld₁ hbody hheld₂, ?_⟩
    refine alone_step (if_pos hfull) ?_
    apply (alone_resizing hfree hresize).trans
    exact alone_locking rfl hbody
  · obtain ⟨q₁, hbody, -, -, -, hheld⟩ := enqueueBody_wellFormed
      (hq.withMutex (heldBy self 1)) (lt_of_le_of_ne hq.size_le hfull) item
    refine ⟨_, safeQueueEnqueue_of_ne hfree hfull hbody hheld, ?_⟩
    refine alone_step (if_neg hfull) ?_
    exact alone_locking hfree hbody

end Alone

end NetworkServers.Queue
