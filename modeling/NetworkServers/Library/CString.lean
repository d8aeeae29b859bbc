import Mathlib.Data.Bool.AllAny
import Mathlib.Data.List.Basic
import NetworkServers.Library.Machine

/-!
# C Strings in a Buffer

The string functions of the C library on one buffer. A pointer into the buffer is
an offset, a C string is a run of bytes up to the next NUL, and a read that starts
or runs outside of the buffer is a fault, as is a read through `NULL`.

`strtok` keeps its position between calls and cuts the buffer with NUL bytes. Its
effect is described by two searches, so that callers argue about positions only.
-/

namespace NetworkServers.CString

open NetworkServers.Machine

/-! ## Searching a list from a position -/

section Next

variable {α : Type*} {stop : α → Bool} {l l' : List α} {p q : ℕ}

/-- The first position from `p` on at which `stop` holds, or the end of the list. -/
def next (stop : α → Bool) (l : List α) (p : ℕ) : ℕ :=
  p + (l.drop p).findIdx stop

theorem le_next : p ≤ next stop l p := Nat.le_add_right _ _

/-- No position before the one found satisfies `stop`. -/
theorem next_before {i : ℕ} (hpi : p ≤ i) (hi : i < next stop l p) :
    ∃ c, l[i]? = some c ∧ stop c = false := by
  have hlt : i - p < (l.drop p).findIdx stop := by
    unfold next at hi
    omega
  refine ⟨_, ?_, List.not_of_lt_findIdx hlt⟩
  have hget := List.getElem?_eq_getElem (hlt.trans_le List.findIdx_le_length)
  rwa [List.getElem?_drop, Nat.add_sub_cancel' hpi] at hget

/-- The position found satisfies `stop`. -/
theorem next_at {c : α} (h : l[next stop l p]? = some c) : stop c = true := by
  unfold next at h
  rw [← List.getElem?_drop] at h
  exact List.findIdx_of_getElem?_eq_some h

/-- The position found is determined by what stands before and at it. -/
theorem next_eq (hpq : p ≤ q)
    (hbefore : ∀ i, p ≤ i → i < q → ∃ c, l[i]? = some c ∧ stop c = false)
    (hat : ∃ c, l[q]? = some c ∧ stop c = true) : next stop l p = q := by
  obtain ⟨c, hc, hstop⟩ := hat
  rcases Nat.lt_trichotomy (next stop l p) q with hlt | heq | hgt
  · obtain ⟨d, hd, hfalse⟩ := hbefore _ le_next hlt
    rw [next_at hd] at hfalse
    cases hfalse
  · exact heq
  · obtain ⟨d, hd, hfalse⟩ := next_before hpq hgt
    rw [hc, Option.some.injEq] at hd
    rw [hd, hfalse] at hstop
    cases hstop

/-- A position at which `stop` holds is found at once. -/
theorem next_self {c : α} (hc : l[p]? = some c) (hstop : stop c = true) : next stop l p = p :=
  next_eq le_rfl (fun i hpi hi => absurd hpi (by omega)) ⟨c, hc, hstop⟩

/-- The search finds a position no later than any one that satisfies `stop`. -/
theorem next_le {c : α} (hpq : p ≤ q) (hc : l[q]? = some c) (hstop : stop c = true) :
    next stop l p ≤ q := by
  by_contra hgt
  obtain ⟨d, hd, hfalse⟩ := next_before hpq (by omega : q < next stop l p)
  rw [hc, Option.some.injEq] at hd
  rw [hd, hfalse] at hstop
  cases hstop

/-- A search that meets the same elements up to the position found, and there one that
satisfies `stop`, finds the same position. -/
theorem next_congr (hsame : ∀ i, p ≤ i → i < next stop l p → l'[i]? = l[i]?)
    (hat : ∃ c, l'[next stop l p]? = some c ∧ stop c = true) :
    next stop l' p = next stop l p := by
  refine next_eq le_next (fun i hpi hi => ?_) hat
  rw [hsame i hpi hi]
  exact next_before hpi hi

/-- A search that passes `mid` and stops at `d`. -/
theorem next_append {pre mid rest : List α} {d : α} (hmid : ∀ c ∈ mid, stop c = false)
    (hd : stop d = true) :
    next stop (pre ++ mid ++ d :: rest) pre.length = pre.length + mid.length := by
  refine next_eq (Nat.le_add_right _ _) (fun i hpi hi => ?_) ⟨d, ?_, hd⟩
  · have hlt : i - pre.length < mid.length := by omega
    refine ⟨mid[i - pre.length], ?_, hmid _ (List.getElem_mem hlt)⟩
    rw [List.append_assoc, List.getElem?_append_right hpi, List.getElem?_append_left hlt,
      List.getElem?_eq_getElem hlt]
  · rw [← List.length_append, List.getElem?_append_right le_rfl, Nat.sub_self]
    rfl

end Next

/-! ## Memory -/

/-- The contents of a buffer. -/
abbrev Memory := List UInt8

/-- The bytes of an ASCII literal. -/
def bytes (s : String) : List UInt8 := s.toList.map fun c => c.toNat.toUInt8

/-- The ways a string function can go wrong. -/
inductive Fault where
  /-- A `NULL` pointer is dereferenced or handed to a function that reads it. -/
  | nullPointer
  /-- A read starts or runs outside of the buffer. -/
  | outOfBounds
  /-- A loop has not ended within its bound. -/
  | runsOn
deriving DecidableEq, Repr

/-- The last byte of the buffer is NUL, so every C string in it ends inside. -/
def Terminated (mem : Memory) : Prop := mem[mem.length - 1]? = some 0

theorem Terminated.next_lt {mem : Memory} {stop : UInt8 → Bool} {p : ℕ} (h : Terminated mem)
    (hstop : stop 0 = true) (hp : p < mem.length) : next stop mem p < mem.length :=
  (next_le (by omega : p ≤ mem.length - 1) h hstop).trans_lt (by omega)

/-- Cutting a terminated buffer leaves it terminated. -/
theorem Terminated.set {mem : Memory} (h : Terminated mem) (i : ℕ) :
    Terminated (mem.set i 0) := by
  have hlen : mem.length - 1 < mem.length := (List.getElem?_eq_some_iff.mp h).1
  unfold Terminated at h ⊢
  rw [List.length_set, List.getElem?_set]
  split
  · rename_i heq
    rw [if_pos (heq ▸ hlen)]
  · exact h

/-- The C string at a pointer. -/
def readString (mem : Memory) : Option ℕ → Except Fault (List UInt8)
  | none => .error .nullPointer
  | some p =>
    if p < mem.length ∧ next (· == 0) mem p < mem.length then
      .ok ((mem.drop p).take (next (· == 0) mem p - p))
    else .error .outOfBounds

/-- A string that has been read is somewhere. -/
theorem readString_isSome {mem : Memory} {p : Option ℕ} {text : List UInt8}
    (h : readString mem p = .ok text) : ∃ q, p = some q := by
  cases p with
  | none => cases h
  | some q => exact ⟨q, rfl⟩

/-- The byte at a pointer. -/
def readByte (mem : Memory) : Option ℕ → Except Fault UInt8
  | none => .error .nullPointer
  | some p =>
    match mem[p]? with
    | none => .error .outOfBounds
    | some c => .ok c

theorem readByte_ok {mem : Memory} {p : ℕ} (hp : p < mem.length) :
    ∃ c, readByte mem (some p) = .ok c :=
  ⟨mem[p], by simp [readByte, hp]⟩

/-! ## strtok -/

/-- A buffer and the position that `strtok` keeps between its calls. -/
structure CState where
  mem : Memory
  saved : Option ℕ
deriving DecidableEq, Repr

/-- Where the token at or after `p` starts: `p + strspn(p, delim)`. -/
def tokenStart (delim : List UInt8) (mem : Memory) (p : ℕ) : ℕ :=
  next (fun c => c ∉ delim) mem p

/-- Where a token that starts at `p` stops: `p + strcspn(p, delim)`. -/
def tokenStop (delim : List UInt8) (mem : Memory) (p : ℕ) : ℕ :=
  next (fun c => c = 0 ∨ c ∈ delim) mem p

/-- `strtok(s, delim)`, where `s = none` continues at the saved position. -/
def strtok (s : Option ℕ) (delim : List UInt8) (st : CState) :
    Except Fault (Option ℕ × CState) :=
  match s.or st.saved with
  | none => .error .nullPointer
  | some p =>
    match st.mem[tokenStart delim st.mem p]? with
    | none => .error .outOfBounds
    | some c =>
      if c = 0 then .ok (none, { st with saved := some (tokenStart delim st.mem p) })
      else
        let start := tokenStart delim st.mem p
        let stop := tokenStop delim st.mem start
        match st.mem[stop]? with
        | none => .error .outOfBounds
        | some d =>
          if d = 0 then .ok (some start, { st with saved := some stop })
          else .ok (some start, { mem := st.mem.set stop 0, saved := some (stop + 1) })

section Strtok

variable (delim : List UInt8) (st : CState) {s : Option ℕ} {p : ℕ}

/-- Only delimiters are left: `strtok` returns `NULL`. -/
theorem strtok_none (hs : s.or st.saved = some p)
    (hend : st.mem[tokenStart delim st.mem p]? = some 0) :
    strtok s delim st = .ok (none, { st with saved := some (tokenStart delim st.mem p) }) := by
  simp [strtok, hs, hend]

/-- A search that starts outside of the buffer faults. -/
theorem strtok_outside (hs : s.or st.saved = some p) (hp : st.mem.length ≤ p) :
    strtok s delim st = .error .outOfBounds := by
  have hnone : st.mem[tokenStart delim st.mem p]? = none :=
    List.getElem?_eq_none (hp.trans le_next)
  simp [strtok, hs, hnone]

/-- The position behind a token that stops at `stop`. -/
def behind (mem : Memory) (stop : ℕ) : ℕ :=
  if mem[stop]? = some 0 then stop else stop + 1

/-- A token is left: `strtok` returns its start and cuts the buffer behind it. -/
theorem strtok_some {c : UInt8} (hterm : Terminated st.mem) (hs : s.or st.saved = some p)
    (hstart : st.mem[tokenStart delim st.mem p]? = some c) (hc : c ≠ 0) :
    strtok s delim st = .ok (some (tokenStart delim st.mem p),
      { mem := st.mem.set (tokenStop delim st.mem (tokenStart delim st.mem p)) 0
        saved := some (behind st.mem (tokenStop delim st.mem (tokenStart delim st.mem p))) }) := by
  have hlt : tokenStop delim st.mem (tokenStart delim st.mem p) < st.mem.length :=
    hterm.next_lt (by simp) (List.getElem?_eq_some_iff.mp hstart).1
  simp only [strtok, hs, hstart, if_neg hc, List.getElem?_eq_getElem hlt]
  unfold behind
  by_cases hzero : st.mem[tokenStop delim st.mem (tokenStart delim st.mem p)] = 0
  · -- the token already ends at a NUL, and writing it changes nothing
    have hset : st.mem.set (tokenStop delim st.mem (tokenStart delim st.mem p)) 0 = st.mem := by
      rw [← hzero, List.set_getElem_self]
    rw [if_pos hzero, if_pos (by rw [List.getElem?_eq_getElem hlt, hzero]), hset]
  · rw [if_neg hzero, if_neg (by rw [List.getElem?_eq_getElem hlt]; simpa using hzero)]

end Strtok

/-! ## Buffers given in pieces -/

section Pieces

variable (delim : List UInt8) (st : CState) (pre mid rest : List UInt8) {d : UInt8}
  {s : Option ℕ}

/-- The C string at a piece that is followed by a NUL. -/
theorem readString_append (hmid : ∀ c ∈ mid, c ≠ 0) :
    readString (pre ++ mid ++ 0 :: rest) (some pre.length) = .ok mid := by
  have hnext : next (· == 0) (pre ++ mid ++ 0 :: rest) pre.length = pre.length + mid.length :=
    next_append (fun c hc => by simpa using hmid c hc) rfl
  have hin : pre.length < (pre ++ mid ++ 0 :: rest).length := by
    simp only [List.length_append, List.length_cons]
    omega
  have hend : pre.length + mid.length < (pre ++ mid ++ 0 :: rest).length := by simp
  simp only [readString, hnext, if_pos (And.intro hin hend)]
  rw [Nat.add_sub_cancel_left, List.append_assoc, List.drop_left, List.take_left]

theorem readByte_append : readByte (pre ++ d :: rest) (some pre.length) = .ok d := by
  simp [readByte]

private theorem getElem?_piece :
    (pre ++ mid ++ d :: rest)[pre.length + mid.length]? = some d := by
  rw [← List.length_append, List.getElem?_append_right le_rfl, Nat.sub_self]
  rfl

private theorem tokenStart_append (hne : mid ≠ []) (hmid : ∀ c ∈ mid, c ≠ 0 ∧ c ∉ delim) :
    tokenStart delim (pre ++ mid ++ d :: rest) pre.length = pre.length ∧
      ∃ c, (pre ++ mid ++ d :: rest)[pre.length]? = some c ∧ c ≠ 0 := by
  obtain ⟨c, mid, rfl⟩ := List.exists_cons_of_ne_nil hne
  have hc := hmid c (List.mem_cons_self ..)
  have hget : (pre ++ (c :: mid) ++ d :: rest)[pre.length]? = some c := by simp
  exact ⟨next_self hget (by simpa using hc.2), c, hget, hc.1⟩

/-- `strtok` on a piece without delimiters that a delimiter follows. -/
theorem strtok_append (hmem : st.mem = pre ++ mid ++ d :: rest)
    (hs : s.or st.saved = some pre.length) (hne : mid ≠ [])
    (hmid : ∀ c ∈ mid, c ≠ 0 ∧ c ∉ delim) (hd : d ∈ delim) (hd0 : d ≠ 0) :
    strtok s delim st = .ok (some pre.length,
      { mem := pre ++ mid ++ 0 :: rest, saved := some (pre.length + mid.length + 1) }) := by
  obtain ⟨hstart, c, hc, hc0⟩ := tokenStart_append delim pre mid rest (d := d) hne hmid
  have hstop : tokenStop delim (pre ++ mid ++ d :: rest) pre.length = pre.length + mid.length :=
    next_append (fun c hc => by simpa using hmid c hc) (by simpa using .inr hd)
  simp only [strtok, hs, hmem, hstart, hc, if_neg hc0, hstop, getElem?_piece, if_neg hd0]
  rw [← List.length_append, List.set_append_right _ _ le_rfl, Nat.sub_self, List.set_cons_zero]

/-- `strtok` on a piece without delimiters that a NUL follows. -/
theorem strtok_append_nul (hmem : st.mem = pre ++ mid ++ 0 :: rest)
    (hs : s.or st.saved = some pre.length) (hne : mid ≠ [])
    (hmid : ∀ c ∈ mid, c ≠ 0 ∧ c ∉ delim) :
    strtok s delim st = .ok (some pre.length,
      { mem := st.mem, saved := some (pre.length + mid.length) }) := by
  obtain ⟨hstart, c, hc, hc0⟩ := tokenStart_append delim pre mid rest (d := 0) hne hmid
  have hstop : tokenStop delim (pre ++ mid ++ 0 :: rest) pre.length = pre.length + mid.length :=
    next_append (fun c hc => by simpa using hmid c hc) (by simp)
  simp only [strtok, hs, hmem, hstart, hc, if_neg hc0, hstop, getElem?_piece, if_true]

/-- `strtok` at a NUL. -/
theorem strtok_nul (hmem : st.mem = pre ++ 0 :: rest) (hs : s.or st.saved = some pre.length)
    (hdelim : (0 : UInt8) ∉ delim) :
    strtok s delim st = .ok (none, { mem := st.mem, saved := some pre.length }) := by
  have hget : st.mem[pre.length]? = some 0 := by simp [hmem]
  have hstart : tokenStart delim st.mem pre.length = pre.length :=
    next_self hget (by simpa using hdelim)
  rw [strtok_none delim st hs (by rw [hstart, hget]), hstart]

/-- Whatever `strtok` finds in a piece that ends in a NUL, it cuts this piece only. -/
theorem strtok_piece (hmem : st.mem = pre ++ (mid ++ [0]) ++ rest)
    (hs : s.or st.saved = some pre.length) (hdelim : (0 : UInt8) ∉ delim) :
    ∃ token mid' saved, mid'.length = mid.length + 1 ∧
      strtok s delim st = .ok (token, { mem := pre ++ mid' ++ rest, saved := saved }) := by
  have hend : st.mem[pre.length + mid.length]? = some 0 := by
    rw [hmem, ← List.append_assoc, List.append_assoc _ [0]]
    exact getElem?_piece pre mid rest
  have hin : ∀ i, i ≤ pre.length + mid.length → ∃ c, st.mem[i]? = some c := fun i hi =>
    ⟨_, List.getElem?_eq_getElem (hi.trans_lt (List.getElem?_eq_some_iff.mp hend).1)⟩
  -- both searches stop at the NUL at the latest
  have hstart : tokenStart delim st.mem pre.length ≤ pre.length + mid.length :=
    next_le (Nat.le_add_right _ _) hend (by simpa using hdelim)
  have hstop : tokenStop delim st.mem (tokenStart delim st.mem pre.length) ≤
      pre.length + mid.length := next_le hstart hend (by simp)
  obtain ⟨c, hc⟩ := hin _ hstart
  obtain ⟨d, hd⟩ := hin _ hstop
  have hcut : ∃ mid', mid'.length = mid.length + 1 ∧
      st.mem.set (tokenStop delim st.mem (tokenStart delim st.mem pre.length)) 0 =
        pre ++ mid' ++ rest := by
    have hle : pre.length ≤ tokenStop delim st.mem (tokenStart delim st.mem pre.length) :=
      le_next.trans le_next
    rw [hmem] at hle hstop ⊢
    refine ⟨(mid ++ [0]).set (tokenStop delim (pre ++ (mid ++ [0]) ++ rest)
      (tokenStart delim (pre ++ (mid ++ [0]) ++ rest) pre.length) - pre.length) 0, by simp, ?_⟩
    rw [List.append_assoc, List.set_append_right _ _ (by simpa using hle),
      List.set_append_left _ _ (by simp; simp at hstop; omega), List.append_assoc]
    simp
  obtain ⟨mid', hlength, hmem'⟩ := hcut
  simp only [strtok, hs, hc, hd]
  split
  · exact ⟨none, mid ++ [0], _, by simp, by rw [hmem]⟩
  split
  · exact ⟨_, mid ++ [0], _, by simp, by rw [hmem]⟩
  · exact ⟨_, mid', _, hlength, by rw [hmem']⟩

end Pieces

/-! ## What `strtok` has found -/

/-- A search that finds nothing has stopped at a NUL, and does not write. -/
theorem strtok_eq_none {delim : List UInt8} {st st' : CState} {s : Option ℕ}
    (h : strtok s delim st = .ok (none, st')) :
    ∃ q, s.or st.saved = some q ∧ st.mem[tokenStart delim st.mem q]? = some 0 ∧
      st' = { st with saved := some (tokenStart delim st.mem q) } := by
  unfold strtok at h
  split at h
  · cases h
  rename_i q hq
  split at h
  · cases h
  rename_i c hc
  split at h
  · rename_i hc0
    obtain ⟨-, rfl⟩ := Prod.mk.inj (Except.ok.inj h)
    exact ⟨q, hq, by rw [hc, hc0], rfl⟩
  -- a token has been found
  · dsimp only at h
    split at h
    · cases h
    · split at h <;> cases h

/-- A token begins with a byte other than NUL, and the buffer is cut where it stops. -/
theorem strtok_eq_some {delim : List UInt8} {st st' : CState} {s : Option ℕ} {p : ℕ}
    (h : strtok s delim st = .ok (some p, st')) :
    ∃ q c d, s.or st.saved = some q ∧ p = tokenStart delim st.mem q ∧
      st.mem[p]? = some c ∧ c ≠ 0 ∧ st.mem[tokenStop delim st.mem p]? = some d ∧
      st' = { mem := st.mem.set (tokenStop delim st.mem p) 0
              saved := some (behind st.mem (tokenStop delim st.mem p)) } := by
  unfold strtok at h
  split at h
  · cases h
  rename_i q hq
  split at h
  · cases h
  rename_i c hc
  split at h
  · cases h
  rename_i hc0
  dsimp only at h
  split at h
  · cases h
  rename_i d hd
  split at h
  · -- the token ends at a NUL, and writing it changes nothing
    rename_i hd0
    subst hd0
    obtain ⟨hp, rfl⟩ := Prod.mk.inj (Except.ok.inj h)
    obtain rfl := Option.some.inj hp
    refine ⟨q, c, 0, hq, rfl, hc, hc0, hd, ?_⟩
    obtain ⟨hlt, hget⟩ := List.getElem?_eq_some_iff.mp hd
    rw [behind, if_pos hd, ← hget, List.set_getElem_self]
  · rename_i hd0
    obtain ⟨hp, rfl⟩ := Prod.mk.inj (Except.ok.inj h)
    obtain rfl := Option.some.inj hp
    refine ⟨q, c, d, hq, rfl, hc, hc0, hd, ?_⟩
    rw [behind, if_neg (by rw [hd]; simpa using hd0)]

end NetworkServers.CString
