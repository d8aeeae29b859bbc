import NetworkServers.Http.QueueRing

/-!
# Resizing a Ring

What `safe_queue_resize` does to a ring that is not full, at every wrap position: how many
turns its copy loop takes, which slots it writes, and what the new ring holds. The shrink of
`safe_queue_dequeue` is such a resize, and it leaves at least two slots.
-/

namespace NetworkServers.Queue

open NetworkServers.Ring NetworkServers.Machine

variable {α : Type}

/-! ## The new ring -/

/-- The slots from `front` to `rear`, in this order. A slot that was never written counts
too. -/
def SafeQueue.contents (q : SafeQueue α) : List (Option α) :=
  slots q.data q.front q.capacity q.size

/-- The array into which `safe_queue_resize` has copied. -/
def SafeQueue.copied (q : SafeQueue α) (newCapacity : ℕ) : List (Option α) :=
  q.contents ++ List.replicate (newCapacity - q.size) none

/-- The queue with this array. -/
def SafeQueue.resized (q : SafeQueue α) (newCapacity : ℕ) : SafeQueue α :=
  { q with data := q.copied newCapacity, front := 0, rear := q.size, capacity := newCapacity }

/-- The copy loop of `safe_queue_resize`, stopped after a number of turns. -/
def copyTurns (q : SafeQueue α) (newCapacity turns : ℕ) : Except Fault (List (Option α)) :=
  copyLoop q.data q.rear q.capacity turns q.front 0 (List.replicate newCapacity none)

/-- `safe_queue_resize` to `newCapacity` slots is exact. -/
structure ResizesExactly (q : SafeQueue α) (newCapacity : ℕ) : Prop where
  /-- The loop takes at least `size` turns. -/
  runsOn : ∀ turns < q.size, copyTurns q newCapacity turns = .error .copyRunsOn
  /-- It ends with these, inside of the new array, and has written its first `size` slots. -/
  ends : ∀ turns, q.size ≤ turns → copyTurns q newCapacity turns = .ok (q.copied newCapacity)
  /-- The function returns where it gets the mutex. -/
  returns : ∀ kind self m, mutexLock kind self q.mutex = .ok m →
    safeQueueResize kind self q newCapacity =
      .ok { q.resized newCapacity with mutex := mutexUnlock m }
  wellFormed : WellFormed (q.resized newCapacity)
  /-- The same items in the same order. -/
  contents : (q.resized newCapacity).contents = q.contents
  represents : ∀ items, Represents q items → Represents (q.resized newCapacity) items

/-- A queue represents the items that have been written to all of its slots. -/
theorem represents_iff_contents {q : SafeQueue α} {items : List α} :
    Represents q items ↔ WellFormed q ∧ q.contents = items.map some := by
  constructor
  · intro h
    refine ⟨h.wellFormed, ?_⟩
    rw [SafeQueue.contents, h.size_eq]
    exact holds_iff_slots.mp h.holds
  · rintro ⟨hq, hcontents⟩
    have hsize : q.size = items.length := by
      simpa [SafeQueue.contents] using congrArg List.length hcontents
    refine ⟨hq, hsize, holds_iff_slots.mpr ?_⟩
    rwa [SafeQueue.contents, hsize] at hcontents

section Resize

variable {q : SafeQueue α} {newCapacity : ℕ}

@[simp] theorem length_contents : q.contents.length = q.size := length_slots ..

theorem length_copied (hfit : q.size < newCapacity) : (q.copied newCapacity).length = newCapacity := by
  rw [SafeQueue.copied, List.length_append, length_contents, List.length_replicate]
  omega

/-- The new ring starts at slot zero, so its slots are the copied ones. -/
theorem contents_resized (hfit : q.size < newCapacity) :
    (q.resized newCapacity).contents = q.contents := by
  show slots (q.copied newCapacity) 0 newCapacity q.size = q.contents
  rw [slots_zero hfit.le (length_copied hfit), SafeQueue.copied]
  exact List.take_left' length_contents

/-- The copy loop has not met `rear` before it has passed every slot. By induction on the
turns; after `k` of them it reads the slot with offset `k`. -/
theorem copyLoop_runsOn {data : List (Option α)} {f c n : ℕ} (hf : f < c)
    (hlen : data.length = c) (hn : n < c) :
    ∀ (fuel k : ℕ) (newData : List (Option α)), k + fuel < n → n ≤ newData.length →
      copyLoop data ((f + n) % c) c fuel ((f + k) % c) k newData = .error .copyRunsOn := by
  intro fuel
  induction fuel with
  | zero =>
    intro k newData hk _
    exact if_neg (slot_ne hf (by omega) hn)
  | succ fuel ih =>
    intro k newData hk hfit
    obtain ⟨slot, -, hturn⟩ := copyLoop_turn hf hlen hn (by omega : k < n) fuel hfit
    rw [hturn]
    exact ih (k + 1) _ (by omega) (by rwa [List.length_set])

variable (hq : WellFormed q) (hnotFull : q.size < q.capacity) (hfit : q.size < newCapacity)
include hq hnotFull hfit

theorem copyTurns_runsOn {turns : ℕ} (h : turns < q.size) :
    copyTurns q newCapacity turns = .error .copyRunsOn := by
  have hloop := copyLoop_runsOn hq.front_lt hq.data_length hnotFull turns 0
    (List.replicate newCapacity none) (by omega) (by rw [List.length_replicate]; omega)
  rwa [slot_zero hq.front_lt, ← hq.rear_eq] at hloop

theorem copyTurns_ends {turns : ℕ} (h : q.size ≤ turns) :
    copyTurns q newCapacity turns = .ok (q.copied newCapacity) := by
  obtain ⟨out, hout, hlength, hget⟩ := copyLoop_spec hq.front_lt hq.data_length hnotFull
    q.size 0 turns (List.replicate newCapacity none) (by omega) h
    (by rw [List.length_replicate]; omega)
  rw [slot_zero hq.front_lt, ← hq.rear_eq] at hout
  rw [copyTurns, hout]
  congr 1
  apply List.ext_getElem?
  intro i
  rw [hget]
  by_cases hi : i < q.size
  · -- a copied slot
    have hslot : (q.front + i) % q.capacity < q.data.length := by
      rw [hq.data_length]
      exact slot_lt hq.front_lt _
    rw [if_pos ⟨Nat.zero_le i, hi⟩, SafeQueue.copied,
      List.getElem?_append_left (by rwa [length_contents]), SafeQueue.contents,
      getElem?_slots hi, List.getElem?_eq_getElem hslot]
    rfl
  · -- a slot behind them, which nobody has written
    rw [if_neg (by omega), SafeQueue.copied,
      List.getElem?_append_right (by rw [length_contents]; omega), length_contents,
      List.getElem?_replicate, List.getElem?_replicate]
    congr 1
    simp only [eq_iff_iff]
    omega

theorem resizesExactly : ResizesExactly q newCapacity where
  runsOn := fun _ => copyTurns_runsOn hq hnotFull hfit
  ends := fun _ => copyTurns_ends hq hnotFull hfit
  returns := by
    intro kind self m hlock
    have hcopy := copyTurns_ends hq hnotFull hfit hq.size_le
    unfold copyTurns at hcopy
    simp only [safeQueueResize, hlock, ok_bind, resizeBody, hcopy]
    rfl
  wellFormed := wellFormed_resized (length_copied hfit) hfit
  contents := contents_resized hfit
  represents := by
    intro items hitems
    rw [represents_iff_contents] at hitems ⊢
    exact ⟨wellFormed_resized (length_copied hfit) hfit,
      (contents_resized hfit).trans hitems.2⟩

end Resize

/-! ## Capacities -/

/-- The capacities that growing and shrinking lead to. -/
inductive CapacityReached : ℕ → Prop where
  | initial : CapacityReached initialCapacity
  | grown {capacity : ℕ} : CapacityReached capacity → CapacityReached (capacity * 2)
  | shrunk {size capacity : ℕ} : CapacityReached capacity → ShrinkDue size capacity →
      CapacityReached (capacity / 2)

/-- A quarter of the slots that is not empty is at least one of four. -/
theorem CapacityReached.two_le {capacity : ℕ} (h : CapacityReached capacity) : 2 ≤ capacity := by
  induction h with
  | initial => decide
  | grown _ ih => omega
  | shrunk _ hdue _ =>
    obtain ⟨hpos, hquarter⟩ := hdue
    omega

/-- The queue from which `safe_queue_dequeue` has taken an item, when a shrink is due. -/
theorem takeFront_shrinkDue {q q' : SafeQueue α} {item : Option α} (hq : WellFormed q)
    (htake : takeFront q = .ok (item, q')) (hdue : ShrinkDue q'.size q'.capacity) :
    ResizesExactly q' (q'.capacity / 2) := by
  have hsize : q'.size = q.size - 1 := by
    unfold takeFront at htake
    split at htake
    · cases htake
    · cases htake
      rfl
  have hpos : 0 < q.size := by
    have := hdue.1
    omega
  obtain ⟨item', q'', htake', hq', -⟩ := takeFront_wellFormed hq hpos
  rw [htake'] at htake
  cases htake
  exact resizesExactly hq' hdue.fits.1 hdue.fits.2

section Calls

variable {q q' : SafeQueue α} {kind : MutexKind} {self : ThreadId}

theorem capacity_safeQueueResize {newCapacity : ℕ}
    (h : safeQueueResize kind self q newCapacity = .ok q') : q'.capacity = newCapacity := by
  obtain ⟨m, -, h⟩ := bind_eq_ok.mp h
  obtain ⟨q₁, hbody, h⟩ := bind_eq_ok.mp h
  cases h
  obtain ⟨data, -, hbody⟩ := bind_eq_ok.mp hbody
  cases hbody
  rfl

theorem capacity_enqueueBody {item : α} (h : enqueueBody q item = .ok q') :
    q'.capacity = q.capacity := by
  unfold enqueueBody at h
  split at h
  · cases h
    rfl
  · cases h

theorem capacity_takeFront {item : Option α} (h : takeFront q = .ok (item, q')) :
    q'.capacity = q.capacity := by
  unfold takeFront at h
  split at h
  · cases h
  · cases h
    rfl

/-- An enqueue grows a full ring, and leaves any other capacity as it is. -/
theorem capacity_safeQueueEnqueue {item : α} (h : safeQueueEnqueue kind self q item = .ok q') :
    q'.capacity = q.capacity ∨ q'.capacity = q.capacity * 2 := by
  unfold safeQueueEnqueue at h
  dsimp only at h
  split at h
  · -- the ring was full
    obtain ⟨q₁, hgrow, h⟩ := bind_eq_ok.mp h
    obtain ⟨m, -, h⟩ := bind_eq_ok.mp h
    obtain ⟨q₂, hbody, h⟩ := bind_eq_ok.mp h
    cases h
    have hstored := capacity_enqueueBody hbody
    have hgrown := capacity_safeQueueResize hgrow
    exact .inr (hstored.trans hgrown)
  · rw [pure_bind] at h
    obtain ⟨m, -, h⟩ := bind_eq_ok.mp h
    obtain ⟨q₂, hbody, h⟩ := bind_eq_ok.mp h
    cases h
    have hstored := capacity_enqueueBody hbody
    exact .inl hstored

/-- A dequeue shrinks the ring where a shrink is due. -/
theorem capacity_safeQueueDequeue {item : Option α}
    (h : safeQueueDequeue kind self q = .ok (item, q')) :
    q'.capacity = q.capacity ∨
      ∃ size, ShrinkDue size q.capacity ∧ q'.capacity = q.capacity / 2 := by
  obtain ⟨m, -, h⟩ := bind_eq_ok.mp h
  split at h
  · cases h
  · obtain ⟨⟨taken, q₁⟩, htake, h⟩ := bind_eq_ok.mp h
    have htaken := capacity_takeFront htake
    dsimp only at h htaken
    split at h
    · rename_i hdue
      obtain ⟨q₂, hshrink, h⟩ := bind_eq_ok.mp h
      cases h
      have hshrunk := capacity_safeQueueResize hshrink
      rw [htaken] at hdue hshrunk
      exact .inr ⟨_, hdue, hshrunk⟩
    · rw [pure_bind] at h
      cases h
      exact .inl htaken

theorem CapacityReached.call {c : ThreadId × Call α} {out : List (Option α)}
    (hq : CapacityReached q.capacity) (h : call kind q c = .ok (q', out)) :
    CapacityReached q'.capacity := by
  obtain ⟨self, c⟩ := c
  cases c with
  | enqueue item =>
    obtain ⟨q₁, henqueue, h⟩ := bind_eq_ok.mp h
    cases h
    rcases capacity_safeQueueEnqueue henqueue with hsame | hgrown
    · rwa [hsame]
    · rw [hgrown]
      exact hq.grown
  | dequeue =>
    obtain ⟨⟨item, q₁⟩, hdequeue, h⟩ := bind_eq_ok.mp h
    cases h
    rcases capacity_safeQueueDequeue hdequeue with hsame | ⟨size, hdue, hshrunk⟩
    · rwa [hsame]
    · rw [hshrunk]
      exact hq.shrunk hdue

/-- Every sequence of calls on a new queue, by any threads, leads to such a capacity. -/
theorem capacityReached_runAll {calls : List (ThreadId × Call α)} {outs : List (Option α)}
    (h : runAll (Queue.call kind) calls safeQueueCreate = .ok (q, outs)) :
    CapacityReached q.capacity := by
  induction calls using List.reverseRecOn generalizing q outs with
  | nil =>
    cases h
    exact .initial
  | append_singleton calls c ih =>
    rw [runAll_snoc] at h
    obtain ⟨⟨q₁, outs₁⟩, hbefore, h⟩ := bind_eq_ok.mp h
    obtain ⟨⟨q₂, out⟩, hcall, h⟩ := bind_eq_ok.mp h
    cases h
    exact (ih hbefore).call hcall

end Calls

/-! ## The resize -/

/-- **Resizing a ring that is not full is exact**: at every wrap position, and for every new
capacity above its size. The shrink that a dequeue asks for is such a resize, and no capacity
that is reached from the initial one is below two. -/
theorem safeQueueResize_exact :
    (∀ (q : SafeQueue α) (newCapacity : ℕ), WellFormed q → q.size < q.capacity →
      q.size < newCapacity → ResizesExactly q newCapacity) ∧
    (∀ (q q' : SafeQueue α) (item : Option α), WellFormed q → takeFront q = .ok (item, q') →
      ShrinkDue q'.size q'.capacity →
      q'.size < q'.capacity ∧ q'.size < q'.capacity / 2 ∧
        ResizesExactly q' (q'.capacity / 2)) ∧
    (∀ (kind : MutexKind) (calls : List (ThreadId × Call α)) (q : SafeQueue α)
      (outs : List (Option α)), runAll (call kind) calls safeQueueCreate = .ok (q, outs) →
      CapacityReached q.capacity) ∧
    ∀ capacity, CapacityReached capacity → 2 ≤ capacity := by
  refine ⟨?_, ?_, ?_, fun _ => CapacityReached.two_le⟩
  · intro q newCapacity hq hnotFull hfit
    exact resizesExactly hq hnotFull hfit
  · intro q q' item hq htake hdue
    exact ⟨hdue.fits.1, hdue.fits.2, takeFront_shrinkDue hq htake hdue⟩
  · intro kind calls q outs hrun
    exact capacityReached_runAll hrun

/-- Two items around the end of an array of five slots. -/
def wrappedPair : SafeQueue ℕ where
  data := [some 8, none, none, none, some 7]
  size := 2
  capacity := 5
  front := 4
  rear := 1
  mutex := Mutex.free

theorem wellFormed_wrappedPair : WellFormed wrappedPair where
  front_lt := by decide
  size_le := by decide
  rear_eq := rfl
  data_length := rfl

/-- They stand at the start of an array of three slots then. -/
theorem safeQueueResize_exact_wrappedPair :
    copyTurns wrappedPair 3 1 = .error .copyRunsOn ∧
      copyTurns wrappedPair 3 2 = .ok [some 7, some 8, none] := by
  have hexact := safeQueueResize_exact.1 wrappedPair 3 wellFormed_wrappedPair (by decide) (by decide)
  exact ⟨hexact.runsOn 1 (by decide), hexact.ends 2 le_rfl⟩

end NetworkServers.Queue
