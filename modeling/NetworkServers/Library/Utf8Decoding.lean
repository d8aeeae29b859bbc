import Mathlib.Algebra.Group.Nat.Defs
import NetworkServers.Library.JsString

/-!
# Decoding UTF-8 in Pieces

The lossy decoder reads a text from left to right, and a byte that cannot continue a
character ends the one that it is in: up to there the text does not depend on what
follows. Characters of more than one byte are no ASCII characters.
-/

namespace NetworkServers.Js

/-! ## Output and state -/

/-- The decoder behind some bytes, and the code points up to there. -/
def Decoder.feed (d : Decoder) : List UInt8 → Decoder × List (Option ℕ)
  | [] => (d, [])
  | b :: bytes => ((d.step b).1.feed bytes |>.1, (d.step b).2 ++ ((d.step b).1.feed bytes).2)

/-- What is put out for a character that has been cut off. -/
def Decoder.flush (d : Decoder) : List (Option ℕ) := if d.missing = 0 then [] else [none]

theorem Decoder.run_append (d : Decoder) (xs ys : List UInt8) :
    d.run (xs ++ ys) = (d.feed xs).2 ++ (d.feed xs).1.run ys := by
  induction xs generalizing d with
  | nil => rfl
  | cons x xs ih =>
    show (d.step x).2 ++ (d.step x).1.run (xs ++ ys) = _
    rw [ih, ← List.append_assoc]
    rfl

theorem Decoder.run_eq (d : Decoder) (xs : List UInt8) :
    d.run xs = (d.feed xs).2 ++ (d.feed xs).1.flush := by
  have h := d.run_append xs []
  rwa [List.append_nil] at h

/-- The states that decoding goes through: continuation bytes are looked for, and the bits
so far stand neither for an ASCII character nor for more than 21 bits. -/
structure Decoder.Inside (d : Decoder) : Prop where
  lower : 0x80 ≤ d.lower
  upper : d.upper ≤ 0xBF
  last : d.missing = 1 → 2 ≤ d.codePoint
  first : 2 ≤ d.missing → 2 ≤ d.codePoint * 0x40 + d.lower.toNat % 0x40
  bound : (d.codePoint + 1) * 0x40 ^ d.missing ≤ 0x200000

theorem Decoder.inside_start : Decoder.start.Inside where
  lower := by decide
  upper := by decide
  last := fun h => absurd h (by decide)
  first := fun h => absurd h (by decide)
  bound := by decide

/-- What one more byte does: it puts code points out or leads into a character, and among
the code points only the byte itself is an ASCII character. -/
structure Decoder.Proceeds (b : UInt8) (next : Decoder × List (Option ℕ)) : Prop where
  inside : next.1.Inside
  output : next.1.missing = 0 → next.2 ≠ []
  ascii : ∀ n, some n ∈ next.2 → n < 0x80 → n = b.toNat
  small : ∀ n, some n ∈ next.2 → n < 0x200000

/-- A character of three or four bytes, after its first one: the range of the second byte
excludes overlong encodings. -/
theorem Decoder.inside_lead {code missing : ℕ} {lower upper : UInt8} (hmissing : 2 ≤ missing)
    (hlower : 0x80 ≤ lower) (hupper : upper ≤ 0xBF)
    (hcode : 1 ≤ code ∨ 2 ≤ lower.toNat % 0x40)
    (hbound : (code + 1) * 0x40 ^ missing ≤ 0x200000) :
    Decoder.Inside { codePoint := code, missing := missing, lower := lower, upper := upper } where
  lower := hlower
  upper := hupper
  last := fun h => by
    change missing = 1 at h
    omega
  first := fun _ => by
    show 2 ≤ code * 0x40 + lower.toNat % 0x40
    omega
  bound := hbound

/-- The first byte of a character. -/
theorem Decoder.lead_proceeds (b : UInt8) : Decoder.Proceeds b (Decoder.lead b) := by
  have hb := b.toNat_lt
  unfold Decoder.lead
  split
  · -- ASCII
    refine ⟨inside_start, by simp, fun n hn _ => ?_, fun n hn => ?_⟩
    · exact Option.some.inj (List.mem_singleton.mp hn)
    · obtain rfl := Option.some.inj (List.mem_singleton.mp hn)
      omega
  split
  · -- two bytes
    rename_i _ h
    have hlow : 0xC2 ≤ b.toNat := UInt8.le_iff_toNat_le.mp h.1
    have hhigh : b.toNat ≤ 0xDF := UInt8.le_iff_toNat_le.mp h.2
    refine ⟨⟨inside_start.lower, inside_start.upper, fun _ => ?_, fun h => ?_, ?_⟩, by simp,
      by simp, by simp⟩
    · show 2 ≤ b.toNat % 0x20
      omega
    · exact absurd (show 2 ≤ 1 from h) (Nat.not_le_of_lt Nat.one_lt_two)
    · show (b.toNat % 0x20 + 1) * 0x40 ^ 1 ≤ 0x200000
      omega
  split
  · -- three bytes: after E0 the second byte makes up for the bits that are zero
    rename_i _ _ h
    have hlow : 0xE0 ≤ b.toNat := UInt8.le_iff_toNat_le.mp h.1
    have hhigh : b.toNat ≤ 0xEF := UInt8.le_iff_toNat_le.mp h.2
    refine ⟨inside_lead (Nat.le_refl 2) ?_ ?_ ?_ ?_, by simp, by simp, by simp⟩
    · split <;> decide
    · split <;> decide
    · split
      · exact .inr (by decide)
      · rename_i hne
        have hne' : b.toNat ≠ 0xE0 := fun h => hne (UInt8.toNat_inj.mp h)
        omega
    · omega
  split
  · -- four bytes: likewise after F0
    rename_i _ _ _ h
    have hlow : 0xF0 ≤ b.toNat := UInt8.le_iff_toNat_le.mp h.1
    have hhigh : b.toNat ≤ 0xF4 := UInt8.le_iff_toNat_le.mp h.2
    refine ⟨inside_lead (by decide) ?_ ?_ ?_ ?_, by simp, by simp, by simp⟩
    · split <;> decide
    · split <;> decide
    · split
      · exact .inr (by decide)
      · rename_i hne
        have hne' : b.toNat ≠ 0xF0 := fun h => hne (UInt8.toNat_inj.mp h)
        omega
    · omega
  · -- no first byte
    exact ⟨inside_start, by simp, by simp, by simp⟩

/-- The next byte. -/
theorem Decoder.step_proceeds {d : Decoder} (hd : d.Inside) (b : UInt8) :
    Decoder.Proceeds b (d.step b) := by
  obtain ⟨hinside, houtput, hascii, hsmall⟩ := Decoder.lead_proceeds b
  unfold Decoder.step
  split
  · exact ⟨hinside, houtput, hascii, hsmall⟩
  split
  · -- the byte does not continue the character, and is read again as a first one
    refine ⟨hinside, by simp, fun n hn hlt => hascii n ?_ hlt, fun n hn => hsmall n ?_⟩
    · simpa using hn
    · simpa using hn
  rename_i hmissing hrange
  obtain ⟨hlow, hhigh⟩ := not_or.mp hrange
  have hlow' : d.lower.toNat ≤ b.toNat := UInt8.le_iff_toNat_le.mp (UInt8.not_lt.mp hlow)
  have hlower : 0x80 ≤ d.lower.toNat := UInt8.le_iff_toNat_le.mp hd.lower
  have hupper : b.toNat ≤ 0xBF := Nat.le_trans (UInt8.le_iff_toNat_le.mp (UInt8.not_lt.mp hhigh))
    (UInt8.le_iff_toNat_le.mp hd.upper)
  have hbound := hd.bound
  obtain ⟨m, hm⟩ := Nat.exists_eq_succ_of_ne_zero hmissing
  rw [hm, Nat.pow_succ] at hbound
  have hnext : (d.codePoint * 0x40 + b.toNat % 0x40 + 1) * 0x40 ^ m ≤ 0x200000 := by
    calc (d.codePoint * 0x40 + b.toNat % 0x40 + 1) * 0x40 ^ m
        ≤ ((d.codePoint + 1) * 0x40) * 0x40 ^ m := Nat.mul_le_mul_right _ (by omega)
      _ = (d.codePoint + 1) * (0x40 ^ m * 0x40) := by rw [Nat.mul_assoc, Nat.mul_comm 0x40]
      _ ≤ 0x200000 := hbound
  dsimp only
  split
  · rename_i hlast
    have hcode := hd.last hlast
    obtain rfl : m = 0 := by omega
    refine ⟨inside_start, by simp, fun n hn hlt => ?_, fun n hn => ?_⟩
    · -- a character of two bytes or more is beyond ASCII
      obtain rfl := Option.some.inj (List.mem_singleton.mp hn)
      omega
    · obtain rfl := Option.some.inj (List.mem_singleton.mp hn)
      omega
  · rename_i hlast
    have hcode := hd.first (by omega)
    refine ⟨⟨inside_start.lower, inside_start.upper, fun _ => ?_, fun _ => ?_, ?_⟩, fun h => ?_,
      by simp, by simp⟩
    · show 2 ≤ d.codePoint * 0x40 + b.toNat % 0x40
      omega
    · show 2 ≤ (d.codePoint * 0x40 + b.toNat % 0x40) * 0x40 + 128 % 0x40
      omega
    · show (d.codePoint * 0x40 + b.toNat % 0x40 + 1) * 0x40 ^ (d.missing - 1) ≤ 0x200000
      rwa [hm]
    · change d.missing - 1 = 0 at h
      omega

theorem Decoder.feed_inside {d : Decoder} (hd : d.Inside) (xs : List UInt8) :
    (d.feed xs).1.Inside := by
  induction xs generalizing d with
  | nil => exact hd
  | cons x xs ih => exact ih (Decoder.step_proceeds hd x).inside

/-! ## Bytes that begin something new -/

/-- Whether a byte can continue a character. -/
def isContinuation (b : UInt8) : Bool := 0x80 ≤ b && b ≤ 0xBF

/-- Any other byte ends the character before it. -/
theorem Decoder.run_cons_of_not_continuation {d : Decoder} (hd : d.Inside) {b : UInt8}
    (hb : isContinuation b = false) (bytes : List UInt8) :
    d.run (b :: bytes) = d.flush ++ Decoder.start.run (b :: bytes) := by
  have hstart : Decoder.start.step b = Decoder.lead b := rfl
  show (d.step b).2 ++ (d.step b).1.run bytes =
    d.flush ++ ((Decoder.start.step b).2 ++ (Decoder.start.step b).1.run bytes)
  rw [hstart, ← List.append_assoc]
  by_cases hmissing : d.missing = 0
  · have hstep : d.step b = Decoder.lead b := if_pos hmissing
    rw [hstep, Decoder.flush, if_pos hmissing, List.nil_append]
  · have hrange : b < d.lower ∨ d.upper < b := by
      simp only [isContinuation, Bool.and_eq_false_iff, decide_eq_false_iff_not] at hb
      rcases hb with hb | hb
      · exact .inl (UInt8.lt_of_lt_of_le (UInt8.not_le.mp hb) hd.lower)
      · exact .inr (UInt8.lt_of_le_of_lt hd.upper (UInt8.not_le.mp hb))
    have hstep : d.step b = ((Decoder.lead b).1, none :: (Decoder.lead b).2) := by
      rw [Decoder.step, if_neg hmissing, if_pos hrange]
    rw [hstep, Decoder.flush, if_neg hmissing]
    rfl

/-- **Text in pieces**: in front of a byte that cannot continue a character, a text can be
cut before it is decoded. -/
theorem utf8Decode_append (xs : List UInt8) {b : UInt8} (hb : isContinuation b = false)
    (bytes : List UInt8) :
    utf8Decode (xs ++ b :: bytes) = utf8Decode xs ++ utf8Decode (b :: bytes) := by
  have hinside := Decoder.feed_inside Decoder.inside_start xs
  rw [utf8Decode, Decoder.run_append, Decoder.run_cons_of_not_continuation hinside hb,
    ← List.append_assoc, ← Decoder.run_eq, List.flatMap_append]
  rfl

/-! ## Single bytes -/

/-- An ASCII character stands for itself. -/
theorem utf8Decode_cons_ascii {b : UInt8} (hb : b < 0x80) (bytes : List UInt8) :
    utf8Decode (b :: bytes) = b.toNat.toUInt16 :: utf8Decode bytes := by
  have hstep : Decoder.start.step b = (.start, [some b.toNat]) := if_pos hb
  have hlt : b.toNat < 0x10000 := Nat.lt_trans b.toNat_lt (by decide)
  show ((Decoder.start.step b).2 ++ (Decoder.start.step b).1.run bytes).flatMap _ = _
  rw [hstep, List.flatMap_append, List.flatMap_singleton]
  show fromCodePoint b.toNat ++ _ = _
  rw [fromCodePoint, if_pos hlt]
  rfl

theorem utf8Decode_ascii {bytes : List UInt8} (h : ∀ b ∈ bytes, b < 0x80) :
    utf8Decode bytes = bytes.map fun b => b.toNat.toUInt16 := by
  induction bytes with
  | nil => rfl
  | cons b bytes ih =>
    obtain ⟨hb, hbytes⟩ := List.forall_mem_cons.mp h
    rw [utf8Decode_cons_ascii hb, ih hbytes]
    rfl

/-- A continuation byte without a character is replaced. -/
theorem utf8Decode_cons_continuation {b : UInt8} (hb : isContinuation b) (bytes : List UInt8) :
    utf8Decode (b :: bytes) = 0xFFFD :: utf8Decode bytes := by
  simp only [isContinuation, Bool.and_eq_true, decide_eq_true_iff] at hb
  have hlow : 0x80 ≤ b.toNat := UInt8.le_iff_toNat_le.mp hb.1
  have hhigh : b.toNat ≤ 0xBF := UInt8.le_iff_toNat_le.mp hb.2
  have hstep : Decoder.start.step b = (.start, [none]) := by
    show Decoder.lead b = _
    rw [Decoder.lead, if_neg, if_neg, if_neg, if_neg]
    · exact fun h => absurd (UInt8.le_iff_toNat_le.mp h.1) (Nat.not_le_of_lt (by show _ < 0xF0; omega))
    · exact fun h => absurd (UInt8.le_iff_toNat_le.mp h.1) (Nat.not_le_of_lt (by show _ < 0xE0; omega))
    · exact fun h => absurd (UInt8.le_iff_toNat_le.mp h.1) (Nat.not_le_of_lt (by show _ < 0xC2; omega))
    · exact UInt8.not_lt.mpr hb.1
  show ((Decoder.start.step b).2 ++ (Decoder.start.step b).1.run bytes).flatMap _ = _
  rw [hstep]
  rfl

theorem fromCodePoint_ne_nil (n : ℕ) : fromCodePoint n ≠ [] := by
  unfold fromCodePoint
  split <;> simp

theorem Decoder.run_ne_nil {d : Decoder} (hd : d.Inside) {bytes : List UInt8}
    (h : bytes ≠ [] ∨ d.missing ≠ 0) : d.run bytes ≠ [] := by
  induction bytes generalizing d with
  | nil =>
    have hmissing := h.resolve_left (absurd rfl)
    rw [Decoder.run, if_neg hmissing]
    exact List.cons_ne_nil _ _
  | cons b bytes ih =>
    have hstep := Decoder.step_proceeds hd b
    show (d.step b).2 ++ (d.step b).1.run bytes ≠ []
    by_cases hmissing : (d.step b).1.missing = 0
    · exact List.append_ne_nil_of_left_ne_nil (hstep.output hmissing) _
    · exact List.append_ne_nil_of_right_ne_nil _ (ih hstep.inside (.inr hmissing))

/-- Decoding makes no text disappear. -/
theorem utf8Decode_ne_nil {bytes : List UInt8} (h : bytes ≠ []) : utf8Decode bytes ≠ [] := by
  obtain ⟨n, ns, hrun⟩ := List.exists_cons_of_ne_nil
    (Decoder.run_ne_nil Decoder.inside_start (.inl h))
  rw [utf8Decode, hrun, List.flatMap_cons]
  exact List.append_ne_nil_of_left_ne_nil (fromCodePoint_ne_nil _) _

/-- The code points of a text: ASCII ones stand in the bytes, and none is too large. -/
theorem Decoder.mem_run {d : Decoder} (hd : d.Inside) {bytes : List UInt8} {n : ℕ}
    (hn : some n ∈ d.run bytes) : (n < 0x80 → ∃ b ∈ bytes, n = b.toNat) ∧ n < 0x200000 := by
  induction bytes generalizing d with
  | nil =>
    unfold Decoder.run at hn
    split at hn
    · exact absurd hn List.not_mem_nil
    · cases List.mem_singleton.mp hn
  | cons b bytes ih =>
    have hstep := Decoder.step_proceeds hd b
    rcases List.mem_append.mp (show some n ∈ (d.step b).2 ++ (d.step b).1.run bytes from hn)
      with hout | hrest
    · exact ⟨fun hlt => ⟨b, List.mem_cons_self, hstep.ascii n hout hlt⟩, hstep.small n hout⟩
    · obtain ⟨hascii, hsmall⟩ := ih hstep.inside hrest
      exact ⟨fun hlt => (hascii hlt).imp fun b' h => ⟨List.mem_cons_of_mem _ h.1, h.2⟩, hsmall⟩

/-- An ASCII code unit is a code point of its own. -/
theorem eq_of_mem_fromCodePoint {n : ℕ} (hn : n < 0x200000) {c : UInt16} (hc : c < 0x80)
    (hmem : c ∈ fromCodePoint n) : n = c.toNat := by
  have hlt : c.toNat < 0x80 := hc
  unfold fromCodePoint at hmem
  split at hmem
  · obtain rfl := List.mem_singleton.mp hmem
    have htoNat : n.toUInt16.toNat = n % 2 ^ 16 := UInt16.toNat_ofNat'
    omega
  · -- surrogates are not ASCII
    have htoNat : ∀ m : ℕ, m.toUInt16.toNat = m % 2 ^ 16 := fun m => UInt16.toNat_ofNat'
    rcases List.mem_cons.mp hmem with rfl | hmem
    · rw [htoNat] at hlt
      omega
    · obtain rfl := List.mem_singleton.mp hmem
      rw [htoNat] at hlt
      omega

/-- **ASCII characters** in a text stand in the bytes. -/
theorem mem_of_mem_utf8Decode {bytes : List UInt8} {c : UInt16} (hc : c < 0x80)
    (hmem : c ∈ utf8Decode bytes) : ∃ b ∈ bytes, c.toNat = b.toNat := by
  obtain ⟨m, hm, hcm⟩ := List.mem_flatMap.mp hmem
  have hlt : c.toNat < 0x80 := hc
  cases m with
  | none =>
    have hsmall : (none : Option ℕ).getD 0xFFFD < 0x200000 := by
      show 0xFFFD < 0x200000
      omega
    have heq : 0xFFFD = c.toNat := eq_of_mem_fromCodePoint hsmall hc hcm
    omega
  | some n =>
    obtain ⟨hascii, hsmall⟩ := Decoder.mem_run Decoder.inside_start hm
    have heq : n = c.toNat := eq_of_mem_fromCodePoint hsmall hc hcm
    exact heq ▸ hascii (heq ▸ hlt)

end NetworkServers.Js
