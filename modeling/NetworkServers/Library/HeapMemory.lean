import Mathlib.Data.List.Nodup
import NetworkServers.Library.Machine

/-!
# A Heap with Freed Objects

Objects that have been allocated, each of them live until it is freed. A freed object
stays where it is, and its address is not given out again, so that every later access to
it is a fault and not an access to something else.

The number of live objects is a ledger: an allocation adds one, a free that succeeds
takes one away, so no more objects can be freed than are live.
-/

namespace NetworkServers.HeapMemory

open NetworkServers.Machine

variable {α : Type}

/-- The ways an access can go wrong. -/
inductive Fault where
  /-- A freed object is read. -/
  | usedAfterFree
  /-- A freed object is freed again. -/
  | freedTwice
  /-- An access is outside of an object. -/
  | outOfBounds
deriving DecidableEq, Repr

/-- An object. -/
structure Cell (α : Type) where
  value : α
  live : Bool
deriving DecidableEq, Repr

/-- All objects, by their addresses. -/
abbrev Heap (α : Type) := List (Cell α)

/-- A new object and its address. -/
def alloc (heap : Heap α) (value : α) : Heap α × ℕ :=
  (heap ++ [{ value := value, live := true }], heap.length)

def read (heap : Heap α) (p : ℕ) : Except Fault α :=
  match heap[p]? with
  | some cell => if cell.live then .ok cell.value else .error .usedAfterFree
  | none => .error .outOfBounds

def free (heap : Heap α) (p : ℕ) : Except Fault (Heap α) :=
  match heap[p]? with
  | some cell => if cell.live then .ok (heap.set p { cell with live := false })
    else .error .freedTwice
  | none => .error .outOfBounds

def write (heap : Heap α) (p : ℕ) (value : α) : Except Fault (Heap α) :=
  match heap[p]? with
  | some cell => if cell.live then .ok (heap.set p { cell with value := value })
    else .error .usedAfterFree
  | none => .error .outOfBounds

/-- Move an object to a new address. -/
def realloc (heap : Heap α) (p : ℕ) : Except Fault (Heap α × ℕ) := do
  let value ← read heap p
  let heap ← free heap p
  return alloc heap value

/-- Free several objects, one after the other. -/
def freeAll : List ℕ → Heap α → Except Fault (Heap α)
  | [], heap => .ok heap
  | p :: ps, heap => do freeAll ps (← free heap p)

/-- There is a live object with this value. -/
def Holds (heap : Heap α) (p : ℕ) (value : α) : Prop :=
  heap[p]? = some { value := value, live := true }

/-- The number of live objects. -/
def liveCount (heap : Heap α) : ℕ := heap.countP Cell.live

section Accesses

variable {heap heap' : Heap α} {p q : ℕ} {ps : List ℕ} {value : α}

theorem Holds.read (h : Holds heap p value) : read heap p = .ok value := by
  unfold Holds at h
  simp [HeapMemory.read, h]

/-- Live objects stay where they are when others are allocated. -/
theorem Holds.append (h : Holds heap p value) (cells : List (Cell α)) :
    Holds (heap ++ cells) p value := by
  unfold Holds at h ⊢
  rwa [List.getElem?_append_left (List.getElem?_eq_some_iff.mp h).1]

theorem Holds.lt (h : Holds heap p value) : p < heap.length := (List.getElem?_eq_some_iff.mp h).1

/-- What a free that succeeds does. -/
theorem free_eq_ok (h : free heap p = .ok heap') :
    ∃ value, Holds heap p value ∧ heap' = heap.set p { value := value, live := false } := by
  unfold free at h
  split at h
  · rename_i cell hcell
    split at h
    · rename_i hlive
      refine ⟨cell.value, ?_, (Except.ok.inj h).symm⟩
      rw [Holds, hcell, ← hlive]
    · cases h
  · cases h

theorem Holds.free (h : Holds heap p value) :
    free heap p = .ok (heap.set p { value := value, live := false }) := by
  unfold Holds at h
  simp [HeapMemory.free, h]

/-- What has been freed cannot be freed again. -/
theorem free_freedTwice (h : free heap p = .ok heap') : free heap' p = .error .freedTwice := by
  obtain ⟨value, hvalue, rfl⟩ := free_eq_ok h
  simp [HeapMemory.free, hvalue.lt]

theorem holds_alloc (heap : Heap α) (value : α) :
    Holds (alloc heap value).1 (alloc heap value).2 value := by
  simp [Holds, alloc]

theorem Holds.alloc (h : Holds heap p value) (other : α) : Holds (alloc heap other).1 p value :=
  h.append _

theorem Holds.write (h : Holds heap p value) (other : α) :
    write heap p other = .ok (heap.set p { value := other, live := true }) := by
  unfold Holds at h
  simp [HeapMemory.write, h]

theorem Holds.set_self (h : Holds heap p value) (other : α) :
    Holds (heap.set p { value := other, live := true }) p other := by
  simp [Holds, h.lt]

theorem Holds.realloc (h : Holds heap p value) :
    ∃ heap' q, realloc heap p = .ok (heap', q) ∧ Holds heap' q value := by
  refine ⟨_, _, ?_, holds_alloc (heap.set p { value := value, live := false }) value⟩
  rw [HeapMemory.realloc, h.read, ok_bind, h.free, ok_bind]
  rfl

theorem Holds.set_ne (h : Holds heap p value) (hne : q ≠ p) (cell : Cell α) :
    Holds (heap.set q cell) p value := by
  unfold Holds at h ⊢
  rwa [List.getElem?_set_ne hne]

/-- Different live objects can all be freed. -/
theorem exists_freeAll (hlive : ∀ p ∈ ps, ∃ value, Holds heap p value) (hdistinct : ps.Nodup) :
    ∃ heap', freeAll ps heap = .ok heap' := by
  induction ps generalizing heap with
  | nil => exact ⟨heap, rfl⟩
  | cons p ps ih =>
    obtain ⟨hp, hps⟩ := List.nodup_cons.mp hdistinct
    obtain ⟨value, hvalue⟩ := hlive p List.mem_cons_self
    rw [freeAll, hvalue.free, ok_bind]
    apply ih _ hps
    intro q hq
    obtain ⟨value', hvalue'⟩ := hlive q (List.mem_cons_of_mem p hq)
    have hne : p ≠ q := fun heq => hp (heq.symm ▸ hq)
    exact ⟨value', hvalue'.set_ne hne _⟩

/-! ## The ledger -/

@[simp] theorem liveCount_alloc (heap : Heap α) (value : α) :
    liveCount (alloc heap value).1 = liveCount heap + 1 := by
  simp [liveCount, alloc]

theorem liveCount_free (h : free heap p = .ok heap') : liveCount heap' + 1 = liveCount heap := by
  obtain ⟨value, hvalue, rfl⟩ := free_eq_ok h
  obtain ⟨hlt, hget⟩ := List.getElem?_eq_some_iff.mp hvalue
  -- the object that is freed has been one of the live ones
  have hpos : 0 < heap.countP Cell.live :=
    List.countP_pos_iff.mpr ⟨heap[p], List.getElem_mem hlt, by rw [hget]⟩
  rw [liveCount, liveCount, List.countP_set hlt, hget]
  simp only [if_true, Bool.false_eq_true, if_false]
  omega

theorem liveCount_freeAll (h : freeAll ps heap = .ok heap') :
    liveCount heap' + ps.length = liveCount heap := by
  induction ps generalizing heap with
  | nil => rw [← Except.ok.inj h, List.length_nil, Nat.add_zero]
  | cons p ps ih =>
    obtain ⟨heap1, hfree, hrest⟩ := bind_eq_ok.mp h
    rw [← liveCount_free hfree, ← ih hrest, List.length_cons, Nat.add_assoc]

end Accesses

end NetworkServers.HeapMemory
