import Mathlib.Algebra.Order.Group.Multiset
import NetworkServers.Library.HeapMemory

/-!
# Programs on a Heap

Programs that allocate, load, store and free objects, and rules of pre- and postconditions for
them. A specification tells which objects a program owns before and behind it, and which
computation on values it implements. All other live objects are its frame: they stay as they
are, and no live object is left unaccounted for. So a program that owns nothing behind it
leaks nothing, and one that ends well has not touched a freed object.
-/

namespace NetworkServers.HeapMemory

open NetworkServers.Machine

variable {α β γ δ ε ζ : Type}

/-! ## Live objects -/

/-- The live objects of a part of a heap that starts at an address. -/
def liveFrom : ℕ → Heap α → Multiset (ℕ × α)
  | _, [] => 0
  | p, cell :: heap => (if cell.live then {(p, cell.value)} else 0) + liveFrom (p + 1) heap

/-- The live objects, with their addresses. -/
def liveObjects (heap : Heap α) : Multiset (ℕ × α) := liveFrom 0 heap

section LiveObjects

variable {heap : Heap α} {p : ℕ} {value : α}

theorem liveFrom_append (p : ℕ) (heap cells : Heap α) :
    liveFrom p (heap ++ cells) = liveFrom p heap + liveFrom (p + heap.length) cells := by
  induction heap generalizing p with
  | nil => simp [liveFrom]
  | cons cell heap ih =>
    have hnext : p + (heap.length + 1) = p + 1 + heap.length := by omega
    rw [List.cons_append, liveFrom, liveFrom, ih, List.length_cons, hnext]
    exact (add_assoc _ _ _).symm

theorem liveObjects_alloc (heap : Heap α) (value : α) :
    liveObjects (alloc heap value).1 = {(heap.length, value)} + liveObjects heap := by
  rw [liveObjects, alloc, liveFrom_append, Nat.zero_add, add_comm]
  simp [liveFrom, liveObjects]

/-- A live object and the others. -/
theorem Holds.liveObjects (h : Holds heap p value) :
    ∃ rest, liveObjects heap = {(p, value)} + rest ∧
      liveObjects (heap.set p { value := value, live := false }) = rest ∧
      ∀ other, liveObjects (heap.set p { value := other, live := true }) = {(p, other)} + rest := by
  -- the cell stands between two parts of the heap that do not change
  have hsplit : ∀ cell, heap.set p cell = heap.take p ++ cell :: heap.drop (p + 1) :=
    fun cell => List.set_eq_take_append_cons_drop.trans (if_pos h.lt)
  have hlength : (heap.take p).length = p := List.length_take_of_le h.lt.le
  have hlive : ∀ cell, HeapMemory.liveObjects (heap.set p cell) =
      (if cell.live then {(p, cell.value)} else 0) +
        (liveFrom 0 (heap.take p) + liveFrom (p + 1) (heap.drop (p + 1))) := by
    intro cell
    rw [HeapMemory.liveObjects, hsplit, liveFrom_append, Nat.zero_add, hlength, liveFrom]
    exact add_left_comm _ _ _
  refine ⟨liveFrom 0 (heap.take p) + liveFrom (p + 1) (heap.drop (p + 1)), ?_, ?_, fun other => ?_⟩
  · -- the cell is there already
    have hset : heap.set p { value := value, live := true } = heap := by
      obtain ⟨hlt, hget⟩ := List.getElem?_eq_some_iff.mp h
      rw [← hget, List.set_getElem_self]
    rw [← hset, hlive, hset]
    rfl
  · rw [hlive]
    exact zero_add _
  · rw [hlive]
    rfl

theorem holds_of_mem_liveFrom {start : ℕ} (h : (p, value) ∈ liveFrom start heap) :
    start ≤ p ∧ Holds heap (p - start) value := by
  induction heap generalizing start with
  | nil => exact absurd h (Multiset.notMem_zero _)
  | cons cell heap ih =>
    rcases Multiset.mem_add.mp h with hcell | hrest
    · split at hcell
      · rename_i hlive
        obtain ⟨rfl, rfl⟩ := Prod.mk.inj (Multiset.mem_singleton.mp hcell)
        refine ⟨Nat.le_refl _, ?_⟩
        rw [Nat.sub_self, Holds, List.getElem?_cons_zero, ← hlive]
      · exact absurd hcell (Multiset.notMem_zero _)
    · -- the addresses of the rest are one higher
      obtain ⟨hle, hholds⟩ := ih hrest
      refine ⟨by omega, ?_⟩
      have hsucc : p - start = p - (start + 1) + 1 := by omega
      rwa [Holds, hsucc, List.getElem?_cons_succ]

theorem holds_of_mem (h : (p, value) ∈ liveObjects heap) : Holds heap p value :=
  (holds_of_mem_liveFrom h).2

end LiveObjects

/-! ## Programs -/

/-- The ways a program can go wrong: in an access to the heap, at an object of another kind, or in
what it does besides. -/
inductive ProgramFault (ε : Type) where
  | memory (fault : Fault)
  | wrongObject
  | raised (fault : ε)
deriving DecidableEq, Repr

/-- A program that gets and leaves a heap. -/
abbrev Program (ε α β : Type) := StateT (Heap α) (Except (ProgramFault ε)) β

namespace Program

/-- An access to the heap. -/
def ofMemory (access : Heap α → Except Fault (β × Heap α)) : Program ε α β :=
  fun heap => (access heap).mapError .memory

/-- `malloc`. -/
def alloc (value : α) : Program ε α ℕ := fun heap =>
  .ok ((HeapMemory.alloc heap value).2, (HeapMemory.alloc heap value).1)

/-- Load an object of some kind. -/
def load (kind : α → Option β) (p : ℕ) : Program ε α β := fun heap =>
  match read heap p with
  | .error fault => .error (.memory fault)
  | .ok value =>
    match kind value with
    | none => .error .wrongObject
    | some b => .ok (b, heap)

def store (p : ℕ) (value : α) : Program ε α Unit :=
  ofMemory fun heap => (write heap p value).map ((), ·)

/-- `free`. -/
def free (p : ℕ) : Program ε α Unit := ofMemory fun heap => (HeapMemory.free heap p).map ((), ·)

/-- `realloc`. -/
def realloc (p : ℕ) : Program ε α ℕ :=
  ofMemory fun heap => (HeapMemory.realloc heap p).map fun moved => (moved.2, moved.1)

/-- A computation without the heap. -/
def attempt (x : Except ε β) : Program ε α β := fun heap =>
  match x with
  | .error fault => .error (.raised fault)
  | .ok b => .ok (b, heap)

end Program

/-! ## Specifications -/

/-- How a program and a computation end: with the same fault, or with results that satisfy `post`
together with the objects that are live besides those of the frame. -/
inductive EndsAlike (post : β → γ → Multiset (ℕ × α) → Prop) (frame : Multiset (ℕ × α)) :
    Except (ProgramFault ε) (β × Heap α) → Except ε γ → Prop where
  | ok {b : β} {c : γ} {heap : Heap α} {own : Multiset (ℕ × α)} (hpost : post b c own)
      (hlive : liveObjects heap = own + frame) : EndsAlike post frame (.ok (b, heap)) (.ok c)
  | error (fault : ε) : EndsAlike post frame (.error (.raised fault)) (.error fault)

/-- The program owns the objects `own`, and implements the computation `y`: it raises the faults
of `y` and no other ones, its result and the objects that it owns then satisfy `post`, and the
other live objects stay as they are. -/
def Implements (own : Multiset (ℕ × α)) (x : Program ε α β) (y : Except ε γ)
    (post : β → γ → Multiset (ℕ × α) → Prop) : Prop :=
  ∀ heap frame, liveObjects heap = own + frame → EndsAlike post frame (x heap) y

namespace Implements

variable {own own' rest : Multiset (ℕ × α)} {x : Program ε α β} {y : Except ε γ} {z : Except ε ζ}
  {post : β → γ → Multiset (ℕ × α) → Prop} {p : ℕ} {value : α}

theorem of_eq (hown : own = own') (h : Implements own' x y post) : Implements own x y post :=
  hown ▸ h

theorem ret {b : β} {c : γ} (h : post b c own) :
    Implements own (pure b : Program ε α β) (.ok c) post :=
  fun _ _ hlive => .ok h hlive

/-- **Sequences**: each program does its part of a sequence of computations. -/
theorem bind {f : β → Program ε α δ} {g : γ → Except ε ζ} {post' : δ → ζ → Multiset (ℕ × α) → Prop}
    (h : Implements own x y post)
    (hnext : ∀ b c own', post b c own' → Implements own' (f b) (g c) post') :
    Implements own (x >>= f) (y >>= g) post' := by
  intro heap frame hlive
  -- `>>=` hands the heap of the first program to the second one
  show EndsAlike post' frame (x heap >>= fun result => f result.1 result.2) (y >>= g)
  have hends := h heap frame hlive
  generalize x heap = result at hends ⊢
  cases hends with
  | ok hb hlive' => exact hnext _ _ _ hb _ frame hlive'
  | error fault => exact .error fault

/-- A part of the program that is not a part of the computation. -/
theorem step {c : γ} {f : β → Program ε α δ} {post' : δ → ζ → Multiset (ℕ × α) → Prop}
    (h : Implements own x (.ok c : Except ε γ) post)
    (hnext : ∀ b own', post b c own' → Implements own' (f b) z post') :
    Implements own (x >>= f) z post' := by
  intro heap frame hlive
  show EndsAlike post' frame (x heap >>= fun result => f result.1 result.2) z
  have hends := h heap frame hlive
  generalize x heap = result at hends ⊢
  cases hends with
  | ok hb hlive' => exact hnext _ _ hb _ frame hlive'

/-- The last part of a program, when the computation has come to its end. -/
theorem last {c : γ} {d : ζ} {post' : β → ζ → Multiset (ℕ × α) → Prop}
    (h : Implements own x (.ok c : Except ε γ) post)
    (hpost : ∀ b own', post b c own' → post' b d own') :
    Implements own x (.ok d : Except ε ζ) post' := by
  rw [← bind_pure x]
  exact h.step fun b own' hb => .ret (hpost b own' hb)

/-- What the computation does with its result at the end is no part of the program. -/
theorem map {g : γ → ζ} {post' : β → ζ → Multiset (ℕ × α) → Prop} (h : Implements own x y post)
    (hpost : ∀ b c own', post b c own' → post' b (g c) own') :
    Implements own x (y >>= fun c => .ok (g c)) post' := by
  rw [← bind_pure x]
  exact h.bind fun b c own' hb => .ret (hpost b c own' hb)

theorem mono {post' : β → γ → Multiset (ℕ × α) → Prop} (h : Implements own x y post)
    (hpost : ∀ b c own, post b c own → post' b c own) : Implements own x y post' := by
  rw [← bind_pure y]
  exact h.map hpost

/-- **The frame rule**: a program leaves objects alone that it does not need. -/
theorem frame (h : Implements own' x y post) (hown : own = own' + rest) :
    Implements own x y fun b c own => ∃ own', post b c own' ∧ own = own' + rest := by
  subst hown
  intro heap frame hlive
  -- the rest is one more frame of the program
  have hends := h heap (rest + frame) (hlive.trans (add_assoc _ _ _))
  generalize x heap = result at hends ⊢
  cases hends with
  | ok hb hlive' => exact .ok ⟨_, hb, rfl⟩ (hlive'.trans (add_assoc _ _ _).symm)
  | error fault => exact .error fault

/-! ### Accesses -/

theorem mem_of_eq {object : ℕ × α} (hown : own = {object} + rest) : object ∈ own :=
  hown ▸ Multiset.mem_add.mpr (.inl (Multiset.mem_singleton_self _))

/-- The objects that a program owns are there. -/
theorem holds {heap : Heap α} {frame : Multiset (ℕ × α)} (hlive : liveObjects heap = own + frame)
    (hmem : (p, value) ∈ own) : Holds heap p value :=
  holds_of_mem (hlive ▸ Multiset.mem_add.mpr (.inl hmem))

theorem alloc (own : Multiset (ℕ × α)) (value : α) :
    Implements own (Program.alloc value : Program ε α ℕ) (.ok ())
      fun p _ own' => own' = {(p, value)} + own := by
  intro heap frame hlive
  refine .ok rfl ?_
  rw [liveObjects_alloc, hlive, add_assoc]
  rfl

theorem load {kind : α → Option β} {b : β} (hmem : (p, value) ∈ own) (hkind : kind value = some b) :
    Implements own (Program.load kind p : Program ε α β) (.ok ())
      fun b' _ own' => b' = b ∧ own' = own := by
  intro heap frame hlive
  unfold Program.load
  simp only [(holds hlive hmem).read, hkind]
  exact .ok ⟨rfl, rfl⟩ hlive

theorem store (hown : own = {(p, value)} + rest) (other : α) :
    Implements own (Program.store p other : Program ε α Unit) (.ok ())
      fun _ _ own' => own' = {(p, other)} + rest := by
  subst hown
  intro heap frame hlive
  have hholds := holds hlive (mem_of_eq rfl)
  obtain ⟨others, hothers, -, hset⟩ := hholds.liveObjects
  rw [hothers, add_assoc] at hlive
  simp only [Program.store, Program.ofMemory, hholds.write]
  refine .ok rfl ?_
  rw [hset, add_left_cancel hlive, add_assoc]

theorem free (hown : own = {(p, value)} + rest) :
    Implements own (Program.free p : Program ε α Unit) (.ok ()) fun _ _ own' => own' = rest := by
  subst hown
  intro heap frame hlive
  have hholds := holds hlive (mem_of_eq rfl)
  obtain ⟨others, hothers, hset, -⟩ := hholds.liveObjects
  rw [hothers, add_assoc] at hlive
  simp only [Program.free, Program.ofMemory, hholds.free]
  exact .ok rfl (hset.trans (add_left_cancel hlive))

theorem realloc (hown : own = {(p, value)} + rest) :
    Implements own (Program.realloc p : Program ε α ℕ) (.ok ())
      fun q _ own' => own' = {(q, value)} + rest := by
  subst hown
  intro heap frame hlive
  have hholds := holds hlive (mem_of_eq rfl)
  obtain ⟨others, hothers, hset, -⟩ := hholds.liveObjects
  rw [hothers, add_assoc] at hlive
  simp only [Program.realloc, Program.ofMemory, HeapMemory.realloc, hholds.read, hholds.free, ok_bind]
  refine .ok rfl ?_
  rw [liveObjects_alloc, hset, add_left_cancel hlive, add_assoc]
  rfl

theorem raise (fault : ε) :
    Implements own (Program.attempt (.error fault) : Program ε α β) (.error fault : Except ε γ) post :=
  fun _ _ _ => .error fault

theorem attempt (own : Multiset (ℕ × α)) (y : Except ε β) :
    Implements own (Program.attempt y : Program ε α β) y
      fun b c own' => b = c ∧ own' = own := by
  intro heap frame hlive
  cases y with
  | error fault => exact .error fault
  | ok b => exact .ok ⟨rfl, rfl⟩ hlive

end Implements

end NetworkServers.HeapMemory
