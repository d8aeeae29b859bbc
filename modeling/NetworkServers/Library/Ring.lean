import Mathlib.Data.Nat.ModEq
import Mathlib.Data.List.Basic

/-!
# Ring Indices

Index arithmetic of a circular array and the list a circular array holds.

A ring of `c` slots that starts at `f` keeps its `i`-th element in slot
`(f + i) % c`. The lemmas below say when two such slots coincide, how the slots
move when the ring gives up its first element, and how a write to one slot
changes the list that the ring holds.
-/

namespace NetworkServers.Ring

/-! ## Slots -/

/-- Below one revolution the modulus is a single conditional subtraction. -/
theorem slot_eq_ite {f i c : ℕ} (hf : f < c) (hi : i ≤ c) :
    (f + i) % c = if f + i < c then f + i else f + i - c := by
  split
  · rename_i hlt
    exact Nat.mod_eq_of_lt hlt
  · rename_i hge
    rw [Nat.mod_eq_sub_mod (by omega)]
    exact Nat.mod_eq_of_lt (by omega)

/-- Every slot of a non-empty ring is inside the array. -/
theorem slot_lt {f c : ℕ} (hf : f < c) (i : ℕ) : (f + i) % c < c :=
  Nat.mod_lt _ (by omega)

/-- Offset zero is the start of the ring. -/
theorem slot_zero {f c : ℕ} (hf : f < c) : (f + 0) % c = f :=
  Nat.mod_eq_of_lt (by omega)

/-- Advancing a slot by one is the slot of the next offset. -/
theorem slot_succ (f i c : ℕ) : ((f + i) % c + 1) % c = (f + (i + 1)) % c := by
  rw [Nat.mod_add_mod, Nat.add_assoc]

/-- Advancing the start by one is the slot of the next offset. -/
theorem slot_start_succ (f i c : ℕ) : ((f + 1) % c + i) % c = (f + (i + 1)) % c := by
  rw [Nat.mod_add_mod, Nat.add_assoc, Nat.add_comm 1 i]

/-- Offsets of one revolution occupy distinct slots. -/
theorem slot_ne {f i j c : ℕ} (hf : f < c) (hij : i < j) (hj : j < c) :
    (f + i) % c ≠ (f + j) % c := by
  rw [slot_eq_ite hf (by omega), slot_eq_ite hf (by omega)]
  split <;> split <;> omega

/-- The slot one revolution away is the start itself. -/
theorem slot_full {f c : ℕ} (hf : f < c) : (f + c) % c = f := by
  rw [Nat.add_mod_right]
  exact Nat.mod_eq_of_lt hf

/-! ## The list held by a ring -/

/-- The ring of `c` slots starting at `f` holds the list `items`: each of its
slots has been written and contains the item of that offset. A slot that was
allocated and never written is `none`. -/
def Holds {α : Type*} (data : List (Option α)) (f c : ℕ) (items : List α) : Prop :=
  ∀ i, (h : i < items.length) → data[(f + i) % c]? = some (some items[i])

section Holds

variable {α : Type*} {data : List (Option α)} {f c : ℕ} {items : List α}

@[simp] theorem holds_nil : Holds data f c [] := by
  intro i h
  cases h

/-- Writing the slot behind the last item appends the item to the list. -/
theorem Holds.push (hf : f < c) (hlen : data.length = c) (hfit : items.length < c)
    (h : Holds data f c items) (x : α) :
    Holds (data.set ((f + items.length) % c) (some x)) f c (items ++ [x]) := by
  intro i hi
  rw [List.length_append, List.length_singleton] at hi
  by_cases hlast : i = items.length
  · subst hlast
    have hslot : (f + items.length) % c < data.length := by
      rw [hlen]
      exact slot_lt hf _
    rw [List.getElem?_set_self hslot]
    simp
  · have hlt : i < items.length := by omega
    have hne : (f + items.length) % c ≠ (f + i) % c := (slot_ne hf hlt hfit).symm
    rw [List.getElem?_set_ne hne, h i hlt, List.getElem_append_left hlt]

/-- The first slot holds the first item. -/
theorem Holds.head {x : α} (hf : f < c) (h : Holds data f c (x :: items)) :
    data[f]? = some (some x) := by
  have h0 := h 0 (by simp)
  rwa [slot_zero hf] at h0

/-- Moving the start past the first slot drops the first item. -/
theorem Holds.pop {x : α} (h : Holds data f c (x :: items)) :
    Holds data ((f + 1) % c) c items := by
  intro i hi
  rw [slot_start_succ]
  have hnext := h (i + 1) (by simpa using hi)
  rwa [List.getElem_cons_succ] at hnext

/-- A ring that starts at slot zero and does not wrap holds a prefix of the array. -/
theorem holds_zero_iff (hfit : items.length ≤ c) :
    Holds data 0 c items ↔ ∀ i, (h : i < items.length) → data[i]? = some (some items[i]) := by
  unfold Holds
  refine forall_congr' fun i => forall_congr' fun hi => ?_
  rw [Nat.zero_add, Nat.mod_eq_of_lt (by omega)]

end Holds

/-! ## The slots of a ring -/

/-- The first `n` slots of a ring, written or not. -/
def slots {α : Type*} (data : List (Option α)) (f c n : ℕ) : List (Option α) :=
  (List.range n).map fun i => (data[(f + i) % c]?).join

section Slots

variable {α : Type*} {data : List (Option α)} {f c n : ℕ} {items : List α}

@[simp] theorem length_slots (data : List (Option α)) (f c n : ℕ) :
    (slots data f c n).length = n := by
  simp [slots]

theorem getElem?_slots {i : ℕ} (hi : i < n) :
    (slots data f c n)[i]? = some (data[(f + i) % c]?).join := by
  simp [slots, List.getElem?_map, List.getElem?_range hi]

/-- A ring holds a list exactly if these are its slots. -/
theorem holds_iff_slots :
    Holds data f c items ↔ slots data f c items.length = items.map some := by
  constructor
  · intro h
    apply List.ext_getElem?
    intro i
    by_cases hi : i < items.length
    · rw [getElem?_slots hi, h i hi, List.getElem?_map, List.getElem?_eq_getElem hi]
      rfl
    · rw [List.getElem?_eq_none (by simpa using hi), List.getElem?_eq_none (by simpa using hi)]
  · intro h i hi
    have hget := congrArg (·[i]?) h
    simp only [getElem?_slots hi, List.getElem?_map, List.getElem?_eq_getElem hi] at hget
    exact Option.join_eq_some_iff.mp (Option.some.inj hget)

/-- A ring that starts at slot zero and does not wrap has the front of the array as its
slots. -/
theorem slots_zero (hfit : n ≤ c) (hlen : data.length = c) : slots data 0 c n = data.take n := by
  apply List.ext_getElem?
  intro i
  by_cases hi : i < n
  · have hin : i < data.length := by omega
    rw [getElem?_slots hi, Nat.zero_add, Nat.mod_eq_of_lt (by omega), List.getElem?_take_of_lt hi,
      List.getElem?_eq_getElem hin]
    rfl
  · rw [List.getElem?_eq_none (by simpa using hi),
      List.getElem?_eq_none (by simp only [List.length_take]; omega)]

end Slots

end NetworkServers.Ring
