import Mathlib.Data.List.Induction
import NetworkServers.Library.Utf8Decoding

/-!
# Encoding as UTF-8

A text without lone surrogates is a sequence of Unicode scalar values, and comes back from
its bytes. From any bytes of it that have arrived, the lossy decoder makes a beginning of
the text and at most one replacement character behind it.
-/

namespace NetworkServers.Js

/-! ## Scalar values -/

/-- A Unicode scalar value: a code point that is no surrogate. -/
def IsScalar (n : ℕ) : Prop := n < 0xD800 ∨ (0xE000 ≤ n ∧ n < 0x110000)

instance (n : ℕ) : Decidable (IsScalar n) := inferInstanceAs (Decidable (_ ∨ _))

/-- Text that scalar values make up. -/
def IsWellFormed (s : JsString) : Prop :=
  ∃ ns : List ℕ, (∀ n ∈ ns, IsScalar n) ∧ s = ns.flatMap fromCodePoint

theorem isWellFormed_nil : IsWellFormed [] :=
  ⟨[], fun _ h => absurd h List.not_mem_nil, rfl⟩

theorem IsWellFormed.append {s t : JsString} (hs : IsWellFormed s) (ht : IsWellFormed t) :
    IsWellFormed (s ++ t) := by
  obtain ⟨ms, hms, rfl⟩ := hs
  obtain ⟨ns, hns, rfl⟩ := ht
  exact ⟨ms ++ ns, List.forall_mem_append.mpr ⟨hms, hns⟩, List.flatMap_append.symm⟩

/-- A code unit outside of the surrogates is a text. -/
theorem isWellFormed_singleton {c : UInt16} (hc : IsScalar c.toNat) : IsWellFormed [c] := by
  refine ⟨[c.toNat], List.forall_mem_singleton.mpr hc, ?_⟩
  have hlt : c.toNat < 0x10000 := c.toNat_lt
  rw [List.flatMap_singleton, fromCodePoint, if_pos hlt]
  exact congrArg (fun d => [d]) UInt16.ofNat_toNat.symm

theorem IsWellFormed.cons {c : UInt16} {s : JsString} (hc : IsScalar c.toNat)
    (hs : IsWellFormed s) : IsWellFormed (c :: s) := (isWellFormed_singleton hc).append hs

theorem isScalar_of_lt {c : UInt16} (hc : c < 0x80) : IsScalar c.toNat := by
  have hlt : c.toNat < 0x80 := hc
  exact .inl (by omega)

theorem isWellFormed_ascii {s : JsString} (h : ∀ c ∈ s, c < 0x80) : IsWellFormed s := by
  induction s with
  | nil => exact isWellFormed_nil
  | cons c s ih =>
    obtain ⟨hc, hs⟩ := List.forall_mem_cons.mp h
    exact (ih hs).cons (isScalar_of_lt hc)

/-- A surrogate pair is a text. -/
theorem isWellFormed_pair {c d : UInt16} (hc : 0xD800 ≤ c ∧ c ≤ 0xDBFF)
    (hd : 0xDC00 ≤ d ∧ d ≤ 0xDFFF) : IsWellFormed [c, d] := by
  have hc₁ : 0xD800 ≤ c.toNat := hc.1
  have hc₂ : c.toNat ≤ 0xDBFF := hc.2
  have hd₁ : 0xDC00 ≤ d.toNat := hd.1
  have hd₂ : d.toNat ≤ 0xDFFF := hd.2
  refine ⟨[0x10000 + (c.toNat - 0xD800) * 0x400 + (d.toNat - 0xDC00)], ?_, ?_⟩
  · exact List.forall_mem_singleton.mpr (.inr (by omega))
  · have hhigh : 0xD800 + (0x10000 + (c.toNat - 0xD800) * 0x400 + (d.toNat - 0xDC00) - 0x10000) /
        0x400 = c.toNat := by omega
    have hlow : 0xDC00 + (0x10000 + (c.toNat - 0xD800) * 0x400 + (d.toNat - 0xDC00) - 0x10000) %
        0x400 = d.toNat := by omega
    rw [List.flatMap_singleton, fromCodePoint, if_neg (by omega), hhigh, hlow]
    simp only [Nat.toUInt16, UInt16.ofNat_toNat]

/-- The first code unit of a code point outside of the basic plane is a surrogate, and so is the
second one. -/
theorem fromCodePoint_cases {n : ℕ} (hn : IsScalar n) :
    (∃ c : UInt16, fromCodePoint n = [c]) ∨
      ∃ c d : UInt16, fromCodePoint n = [c, d] ∧ ¬IsScalar c.toNat ∧ ¬IsScalar d.toNat := by
  unfold fromCodePoint
  split
  · exact .inl ⟨_, rfl⟩
  · refine .inr ⟨_, _, rfl, ?_, ?_⟩
    · unfold IsScalar at *
      rw [Nat.toUInt16, UInt16.toNat_ofNat']
      omega
    · unfold IsScalar at *
      rw [Nat.toUInt16, UInt16.toNat_ofNat']
      omega

theorem IsWellFormed.tail {c : UInt16} {s : JsString} (h : IsWellFormed (c :: s))
    (hc : IsScalar c.toNat) : IsWellFormed s := by
  obtain ⟨ns, hns, heq⟩ := h
  cases ns with
  | nil => cases heq
  | cons n ns =>
    obtain ⟨hn, hns⟩ := List.forall_mem_cons.mp hns
    rw [List.flatMap_cons] at heq
    rcases fromCodePoint_cases hn with ⟨d, hd⟩ | ⟨d, e, hd, hlead, -⟩
    · rw [hd] at heq
      exact ⟨ns, hns, (List.cons.inj heq).2⟩
    · rw [hd] at heq
      obtain ⟨rfl, -⟩ := List.cons.inj heq
      exact absurd hc hlead

theorem IsWellFormed.init {c : UInt16} {s : JsString} (h : IsWellFormed (s ++ [c]))
    (hc : IsScalar c.toNat) : IsWellFormed s := by
  obtain ⟨ns, hns, heq⟩ := h
  induction ns using List.reverseRecOn with
  | nil => simp at heq
  | append_singleton ns n _ =>
    obtain ⟨hns, hn⟩ := List.forall_mem_append.mp hns
    have hn := List.forall_mem_singleton.mp hn
    rw [List.flatMap_append, List.flatMap_singleton] at heq
    rcases fromCodePoint_cases hn with ⟨d, hd⟩ | ⟨d, e, hd, -, htrail⟩
    · rw [hd] at heq
      exact ⟨ns, hns, (List.append_inj' heq rfl).1⟩
    · have hpair : [d, e] = [d] ++ [e] := rfl
      rw [hd, hpair, ← List.append_assoc] at heq
      obtain rfl := List.singleton_inj.mp (List.append_inj' heq rfl).2
      exact absurd hc htrail

/-! ## Code points of a text -/

/-- What a code point of a string comes from: one code unit, with a replacement character for
a surrogate, or a surrogate pair. -/
theorem mem_codePoints {s : JsString} {n : ℕ} (hn : n ∈ codePoints s) :
    (∃ c ∈ s, n = if 0xD800 ≤ c ∧ c ≤ 0xDFFF then 0xFFFD else c.toNat) ∨
      (0x10000 ≤ n ∧ n < 0x110000) := by
  fun_induction codePoints s with
  | case1 => exact absurd hn List.not_mem_nil
  | case2 c => exact .inl ⟨c, List.mem_cons_self, List.mem_singleton.mp hn⟩
  | case3 c d s hpair ih =>
    rcases List.mem_cons.mp hn with heq | hn
    · obtain ⟨hc₁, hc₂, hd₁, hd₂⟩ := hpair
      have hc₁' : 0xD800 ≤ c.toNat := hc₁
      have hc₂' : c.toNat ≤ 0xDBFF := hc₂
      have hd₁' : 0xDC00 ≤ d.toNat := hd₁
      have hd₂' : d.toNat ≤ 0xDFFF := hd₂
      exact .inr (by omega)
    · rcases ih hn with ⟨e, he, hvalue⟩ | hpair
      · exact .inl ⟨e, List.mem_cons_of_mem _ (List.mem_cons_of_mem _ he), hvalue⟩
      · exact .inr hpair
  | case4 c d s hpair ih =>
    rcases List.mem_cons.mp hn with heq | hn
    · exact .inl ⟨c, List.mem_cons_self, heq⟩
    · rcases ih hn with ⟨e, he, hvalue⟩ | hpair
      · exact .inl ⟨e, List.mem_cons_of_mem _ he, hvalue⟩
      · exact .inr hpair

/-- The code points of any string are scalar values. -/
theorem isScalar_of_mem_codePoints {s : JsString} {n : ℕ} (hn : n ∈ codePoints s) :
    IsScalar n := by
  rcases mem_codePoints hn with ⟨c, -, rfl⟩ | ⟨hlow, hhigh⟩
  · have hlt := c.toNat_lt
    split
    · exact .inr (by omega)
    · rename_i hc
      have hc' : ¬(0xD800 ≤ c.toNat ∧ c.toNat ≤ 0xDFFF) := hc
      unfold IsScalar
      omega
  · exact .inr (by omega)

/-- An ASCII code point of a string is a code unit of it. -/
theorem mem_of_mem_codePoints {s : JsString} {n : ℕ} (hn : n ∈ codePoints s) (hlt : n < 0x80) :
    n.toUInt16 ∈ s := by
  rcases mem_codePoints hn with ⟨c, hc, heq⟩ | ⟨hlow, -⟩
  · split at heq
    · omega
    · have hunit : c.toNat.toUInt16 = c := UInt16.ofNat_toNat
      rwa [heq, hunit]
  · omega

/-- A scalar value in front of a string is its first code point. -/
theorem codePoints_fromCodePoint {n : ℕ} (hn : IsScalar n) (s : JsString) :
    codePoints (fromCodePoint n ++ s) = n :: codePoints s := by
  unfold IsScalar at hn
  unfold fromCodePoint
  split
  · -- one code unit, which is no surrogate
    rename_i hlt
    have htoNat : n.toUInt16.toNat = n := UInt16.toNat_ofNat_of_lt' hlt
    have hle : ∀ c : UInt16, n.toUInt16 ≤ c ↔ n ≤ c.toNat := fun c => by
      rw [UInt16.le_iff_toNat_le, htoNat]
    have hge : ∀ c : UInt16, c ≤ n.toUInt16 ↔ c.toNat ≤ n := fun c => by
      rw [UInt16.le_iff_toNat_le, htoNat]
    have hnot : ¬(0xD800 ≤ n.toUInt16 ∧ n.toUInt16 ≤ 0xDFFF) := by
      rw [hge, hle]
      show ¬(0xD800 ≤ n ∧ n ≤ 0xDFFF)
      omega
    cases s with
    | nil =>
      simp only [List.append_nil, codePoints, if_neg hnot, htoNat]
    | cons d s =>
      have hpair : ¬(0xD800 ≤ n.toUInt16 ∧ n.toUInt16 ≤ 0xDBFF ∧ 0xDC00 ≤ d ∧ d ≤ 0xDFFF) := by
        rintro ⟨h₁, h₂, -⟩
        exact hnot ⟨h₁, (hle _).mpr (Nat.le_trans ((hle _).mp h₂) (by decide))⟩
      rw [List.cons_append, List.nil_append, codePoints, if_neg hpair, if_neg hnot, htoNat]
  · rename_i hlt
    -- a surrogate pair
    have hhigh : (0xD800 + (n - 0x10000) / 0x400).toUInt16.toNat = 0xD800 + (n - 0x10000) / 0x400 :=
      UInt16.toNat_ofNat_of_lt' (by show _ < 0x10000; omega)
    have hlow : (0xDC00 + (n - 0x10000) % 0x400).toUInt16.toNat = 0xDC00 + (n - 0x10000) % 0x400 :=
      UInt16.toNat_ofNat_of_lt' (by show _ < 0x10000; omega)
    rw [List.cons_append, List.cons_append, List.nil_append, codePoints, if_pos, hhigh, hlow]
    · have heq : 0x10000 + (0xD800 + (n - 0x10000) / 0x400 - 0xD800) * 0x400 +
          (0xDC00 + (n - 0x10000) % 0x400 - 0xDC00) = n := by omega
      rw [heq]
    · simp only [UInt16.le_iff_toNat_le, hhigh, hlow]
      show 0xD800 ≤ _ ∧ _ ≤ 0xDBFF ∧ 0xDC00 ≤ _ ∧ _ ≤ 0xDFFF
      omega

theorem codePoints_flatMap {ns : List ℕ} (h : ∀ n ∈ ns, IsScalar n) :
    codePoints (ns.flatMap fromCodePoint) = ns := by
  induction ns with
  | nil => rfl
  | cons n ns ih =>
    obtain ⟨hn, hns⟩ := List.forall_mem_cons.mp h
    rw [List.flatMap_cons, codePoints_fromCodePoint hn, ih hns]

/-! ## Bytes of a code point -/

/-- Code points beyond ASCII have no ASCII bytes. -/
theorem le_of_mem_utf8OfCodePoint {n : ℕ} (hlow : 0x80 ≤ n) (hhigh : n < 0x110000) {b : UInt8}
    (hb : b ∈ utf8OfCodePoint n) : 0x80 ≤ b.toNat := by
  have htoNat : ∀ m < 0x100, m.toUInt8.toNat = m := fun m hm => UInt8.toNat_ofNat_of_lt' hm
  unfold utf8OfCodePoint at hb
  rw [if_neg (by omega)] at hb
  split at hb
  · simp only [List.mem_cons, List.not_mem_nil, or_false] at hb
    rcases hb with rfl | rfl <;> rw [htoNat _ (by omega)] <;> omega
  split at hb
  · simp only [List.mem_cons, List.not_mem_nil, or_false] at hb
    rcases hb with rfl | rfl | rfl <;> rw [htoNat _ (by omega)] <;> omega
  · simp only [List.mem_cons, List.not_mem_nil, or_false] at hb
    rcases hb with rfl | rfl | rfl | rfl <;> rw [htoNat _ (by omega)] <;> omega

/-- **ASCII bytes** of an encoded string are code units of it. -/
theorem mem_of_mem_utf8Encode {s : JsString} {b : UInt8} (hb : b ∈ utf8Encode s)
    (hlt : b < 0x80) : b.toUInt16 ∈ s := by
  obtain ⟨n, hn, hbn⟩ := List.mem_flatMap.mp hb
  have hlt' : b.toNat < 0x80 := hlt
  by_cases hascii : n < 0x80
  · rw [utf8OfCodePoint, if_pos hascii] at hbn
    obtain rfl := List.mem_singleton.mp hbn
    have htoNat : n.toUInt8.toNat = n := UInt8.toNat_ofNat_of_lt' (by show n < 0x100; omega)
    have hunit : n.toUInt8.toUInt16 = n.toUInt16 := by
      rw [← UInt16.toNat_inj, UInt8.toNat_toUInt16, htoNat]
      exact (UInt16.toNat_ofNat_of_lt' (by show n < 0x10000; omega)).symm
    rw [hunit]
    exact mem_of_mem_codePoints hn hascii
  · -- the bytes of other characters are not ASCII
    have hscalar := isScalar_of_mem_codePoints hn
    have hle := le_of_mem_utf8OfCodePoint (by omega) (by unfold IsScalar at hscalar; omega) hbn
    omega

/-! ## Decoding what has been encoded -/

/-- The last byte of a character. -/
theorem Decoder.step_last {d : Decoder} {b : UInt8} (hmissing : d.missing = 1)
    (hlower : d.lower.toNat ≤ b.toNat) (hupper : b.toNat ≤ d.upper.toNat) :
    d.step b = (.start, [some (d.codePoint * 0x40 + b.toNat % 0x40)]) := by
  have hrange : ¬(b < d.lower ∨ d.upper < b) := by
    simp only [UInt8.lt_iff_toNat_lt]
    omega
  rw [Decoder.step, if_neg (by omega), if_neg hrange]
  exact if_pos hmissing

/-- A byte inside of a character. -/
theorem Decoder.step_more {d : Decoder} {b : UInt8} (hmissing : 2 ≤ d.missing)
    (hlower : d.lower.toNat ≤ b.toNat) (hupper : b.toNat ≤ d.upper.toNat) :
    d.step b = ({ Decoder.start with codePoint := d.codePoint * 0x40 + b.toNat % 0x40
                                     missing := d.missing - 1 }, []) := by
  have hrange : ¬(b < d.lower ∨ d.upper < b) := by
    simp only [UInt8.lt_iff_toNat_lt]
    omega
  rw [Decoder.step, if_neg (by omega), if_neg hrange]
  exact if_neg (by omega)

/-- Feeding one byte. -/
theorem Decoder.feed_cons {d d' : Decoder} {b : UInt8} {out : List (Option ℕ)}
    (h : d.step b = (d', out)) (bytes : List UInt8) :
    d.feed (b :: bytes) = ((d'.feed bytes).1, out ++ (d'.feed bytes).2) := by
  rw [Decoder.feed, h]

section Lead

variable {b low high : UInt8}

theorem not_lt_of_toNat_le (h : low.toNat ≤ b.toNat) : ¬b < low := fun hlt =>
  Nat.not_lt.mpr h (UInt8.lt_iff_toNat_lt.mp hlt)

theorem not_range_of_toNat_lt (h : high.toNat < b.toNat) : ¬(low ≤ b ∧ b ≤ high) := fun hrange =>
  Nat.not_le.mpr h (UInt8.le_iff_toNat_le.mp hrange.2)

theorem range_of_toNat_le (hlow : low.toNat ≤ b.toNat) (hhigh : b.toNat ≤ high.toNat) :
    low ≤ b ∧ b ≤ high := ⟨UInt8.le_iff_toNat_le.mpr hlow, UInt8.le_iff_toNat_le.mpr hhigh⟩

theorem Decoder.lead_two (hlow : 0xC2 ≤ b.toNat) (hhigh : b.toNat ≤ 0xDF) :
    Decoder.lead b = ({ Decoder.start with codePoint := b.toNat % 0x20, missing := 1 }, []) := by
  have hascii : ¬b < 0x80 := not_lt_of_toNat_le (Nat.le_trans (by decide) hlow)
  rw [Decoder.lead, if_neg hascii, if_pos]
  exact range_of_toNat_le hlow hhigh

theorem Decoder.lead_three (hlow : 0xE0 ≤ b.toNat) (hhigh : b.toNat ≤ 0xEF) :
    Decoder.lead b =
      ({ codePoint := b.toNat % 0x10, missing := 2
         lower := if b = 0xE0 then 0xA0 else 0x80
         upper := if b = 0xED then 0x9F else 0xBF }, []) := by
  have hascii : ¬b < 0x80 := not_lt_of_toNat_le (Nat.le_trans (by decide) hlow)
  have htwo : ¬(0xC2 ≤ b ∧ b ≤ 0xDF) := not_range_of_toNat_lt (Nat.lt_of_lt_of_le (by decide) hlow)
  rw [Decoder.lead, if_neg hascii, if_neg htwo, if_pos]
  exact range_of_toNat_le hlow hhigh

theorem Decoder.lead_four (hlow : 0xF0 ≤ b.toNat) (hhigh : b.toNat ≤ 0xF4) :
    Decoder.lead b =
      ({ codePoint := b.toNat % 0x08, missing := 3
         lower := if b = 0xF0 then 0x90 else 0x80
         upper := if b = 0xF4 then 0x8F else 0xBF }, []) := by
  have hascii : ¬b < 0x80 := not_lt_of_toNat_le (Nat.le_trans (by decide) hlow)
  have htwo : ¬(0xC2 ≤ b ∧ b ≤ 0xDF) := not_range_of_toNat_lt (Nat.lt_of_lt_of_le (by decide) hlow)
  have hthree : ¬(0xE0 ≤ b ∧ b ≤ 0xEF) :=
    not_range_of_toNat_lt (Nat.lt_of_lt_of_le (by decide) hlow)
  rw [Decoder.lead, if_neg hascii, if_neg htwo, if_neg hthree, if_pos]
  exact range_of_toNat_le hlow hhigh

end Lead

section Character

variable {n : ℕ}

theorem toNat_toUInt8 {m : ℕ} (hm : m < 0x100) : m.toUInt8.toNat = m :=
  UInt8.toNat_ofNat_of_lt' hm

theorem Decoder.feed_one (hn : n < 0x80) :
    Decoder.start.feed [n.toUInt8] = (Decoder.start, [some n]) := by
  have hbyte := toNat_toUInt8 (Nat.lt_trans hn (by decide))
  have hascii : n.toUInt8 < 0x80 := UInt8.lt_iff_toNat_lt.mpr (by rwa [hbyte])
  have hstep : Decoder.start.step n.toUInt8 = (Decoder.start, [some n]) := by
    show Decoder.lead n.toUInt8 = _
    rw [Decoder.lead, if_pos hascii, hbyte]
  rw [feed_cons hstep]
  rfl

theorem Decoder.feed_two (hlow : 0x80 ≤ n) (hhigh : n < 0x800) :
    Decoder.start.feed [(0xC0 + n / 0x40).toUInt8, (0x80 + n % 0x40).toUInt8] =
      (Decoder.start, [some n]) := by
  have h₁ := toNat_toUInt8 (m := 0xC0 + n / 0x40) (by omega)
  have h₂ := toNat_toUInt8 (m := 0x80 + n % 0x40) (by omega)
  have hlead : Decoder.start.step (0xC0 + n / 0x40).toUInt8 = _ := lead_two (by omega) (by omega)
  rw [feed_cons hlead, feed_cons (step_last rfl _ _)]
  · simp only [Decoder.feed, h₁, h₂, List.nil_append, List.append_nil]
    congr 3
    omega
  · show 0x80 ≤ _
    omega
  · show _ ≤ 0xBF
    omega

theorem Decoder.feed_three (hlow : 0x800 ≤ n) (hhigh : n < 0x10000) (hn : IsScalar n) :
    Decoder.start.feed [(0xE0 + n / 0x1000).toUInt8, (0x80 + n / 0x40 % 0x40).toUInt8,
      (0x80 + n % 0x40).toUInt8] = (Decoder.start, [some n]) := by
  unfold IsScalar at hn
  have h₁ := toNat_toUInt8 (m := 0xE0 + n / 0x1000) (by omega)
  have h₂ := toNat_toUInt8 (m := 0x80 + n / 0x40 % 0x40) (by omega)
  have h₃ := toNat_toUInt8 (m := 0x80 + n % 0x40) (by omega)
  have hlead : Decoder.start.step (0xE0 + n / 0x1000).toUInt8 = _ :=
    lead_three (by omega) (by omega)
  rw [feed_cons hlead, feed_cons (step_more (Nat.le_refl 2) _ _), feed_cons (step_last rfl _ _)]
  · simp only [Decoder.feed, h₁, h₂, h₃, List.nil_append, List.append_nil]
    congr 3
    omega
  · show 0x80 ≤ _
    omega
  · show _ ≤ 0xBF
    omega
  -- the second byte is in the range that the first one tells
  · dsimp only
    split
    · rename_i heq
      have hzero : n / 0x1000 = 0 := by
        rw [heq] at h₁
        change 0xE0 = _ at h₁
        omega
      show 0xA0 ≤ _
      omega
    · show 0x80 ≤ _
      omega
  · dsimp only
    split
    · rename_i heq
      have hlast : n / 0x1000 = 0xD := by
        rw [heq] at h₁
        change 0xED = _ at h₁
        omega
      show _ ≤ 0x9F
      omega
    · show _ ≤ 0xBF
      omega

theorem Decoder.feed_four (hlow : 0x10000 ≤ n) (hhigh : n < 0x110000) :
    Decoder.start.feed [(0xF0 + n / 0x40000).toUInt8, (0x80 + n / 0x1000 % 0x40).toUInt8,
      (0x80 + n / 0x40 % 0x40).toUInt8, (0x80 + n % 0x40).toUInt8] =
      (Decoder.start, [some n]) := by
  have h₁ := toNat_toUInt8 (m := 0xF0 + n / 0x40000) (by omega)
  have h₂ := toNat_toUInt8 (m := 0x80 + n / 0x1000 % 0x40) (by omega)
  have h₃ := toNat_toUInt8 (m := 0x80 + n / 0x40 % 0x40) (by omega)
  have h₄ := toNat_toUInt8 (m := 0x80 + n % 0x40) (by omega)
  have hlead : Decoder.start.step (0xF0 + n / 0x40000).toUInt8 = _ :=
    lead_four (by omega) (by omega)
  rw [feed_cons hlead, feed_cons (step_more (Nat.le_succ 2) _ _),
    feed_cons (step_more (Nat.le_refl 2) _ _), feed_cons (step_last rfl _ _)]
  · simp only [Decoder.feed, h₁, h₂, h₃, h₄, List.nil_append, List.append_nil]
    congr 3
    omega
  · show 0x80 ≤ _
    omega
  · show _ ≤ 0xBF
    omega
  · show 0x80 ≤ _
    omega
  · show _ ≤ 0xBF
    omega
  · dsimp only
    split
    · rename_i heq
      have hzero : n / 0x40000 = 0 := by
        rw [heq] at h₁
        change 0xF0 = _ at h₁
        omega
      show 0x90 ≤ _
      omega
    · show 0x80 ≤ _
      omega
  · dsimp only
    split
    · rename_i heq
      have hlast : n / 0x40000 = 4 := by
        rw [heq] at h₁
        change 0xF4 = _ at h₁
        omega
      show _ ≤ 0x8F
      omega
    · show _ ≤ 0xBF
      omega

/-- **A character**: the bytes of a scalar value give this value, and nothing is left. -/
theorem Decoder.feed_utf8OfCodePoint (hn : IsScalar n) :
    Decoder.start.feed (utf8OfCodePoint n) = (Decoder.start, [some n]) := by
  unfold utf8OfCodePoint
  split
  · rename_i h₁
    exact feed_one h₁
  rename_i h₁
  split
  · rename_i h₂
    exact feed_two (Nat.le_of_not_lt h₁) h₂
  rename_i h₂
  split
  · rename_i h₃
    exact feed_three (Nat.le_of_not_lt h₂) h₃ hn
  · rename_i h₃
    have hhigh : n < 0x110000 := by
      unfold IsScalar at hn
      omega
    exact feed_four (Nat.le_of_not_lt h₃) hhigh

end Character

theorem Decoder.run_utf8OfCodePoint {n : ℕ} (hn : IsScalar n) (bytes : List UInt8) :
    Decoder.start.run (utf8OfCodePoint n ++ bytes) = some n :: Decoder.start.run bytes := by
  rw [Decoder.run_append, feed_utf8OfCodePoint hn]
  rfl

/-- The bytes of scalar values, read back. -/
theorem Decoder.run_flatMap {ns : List ℕ} (h : ∀ n ∈ ns, IsScalar n) (bytes : List UInt8) :
    Decoder.start.run (ns.flatMap utf8OfCodePoint ++ bytes) =
      ns.map some ++ Decoder.start.run bytes := by
  induction ns with
  | nil => rfl
  | cons n ns ih =>
    obtain ⟨hn, hns⟩ := List.forall_mem_cons.mp h
    rw [List.flatMap_cons, List.append_assoc, run_utf8OfCodePoint hn, ih hns]
    rfl

/-- **Decoding undoes encoding**, up to lone surrogates. -/
theorem utf8Decode_utf8Encode_eq (s : JsString) :
    utf8Decode (utf8Encode s) = (codePoints s).flatMap fromCodePoint := by
  have hrun := Decoder.run_flatMap (fun n => isScalar_of_mem_codePoints (s := s)) []
  rw [List.append_nil] at hrun
  rw [utf8Decode, utf8Encode, hrun, List.flatMap_append, List.flatMap_map]
  exact List.append_nil _

theorem utf8Decode_utf8Encode {s : JsString} (hs : IsWellFormed s) :
    utf8Decode (utf8Encode s) = s := by
  obtain ⟨ns, hns, rfl⟩ := hs
  rw [utf8Decode_utf8Encode_eq, codePoints_flatMap hns]

/-- Texts are encoded one after the other. -/
theorem utf8Encode_append {s t : JsString} (hs : IsWellFormed s) (ht : IsWellFormed t) :
    utf8Encode (s ++ t) = utf8Encode s ++ utf8Encode t := by
  obtain ⟨ms, hms, rfl⟩ := hs
  obtain ⟨ns, hns, rfl⟩ := ht
  have happend := codePoints_flatMap (List.forall_mem_append.mpr ⟨hms, hns⟩)
  rw [List.flatMap_append] at happend
  simp only [utf8Encode, happend, codePoints_flatMap hms, codePoints_flatMap hns,
    List.flatMap_append]

/-! ## Bytes that have arrived in part -/

/-- The text of a part of the bytes: the text up to there, and a replacement character if
the part ends inside of a character. The rest of the bytes gives some more text. -/
theorem utf8Decode_part (xs ys : List UInt8) :
    ∃ text rest, utf8Decode (xs ++ ys) = text ++ rest ∧ (ys ≠ [] → rest ≠ []) ∧
      (utf8Decode xs = text ∨ utf8Decode xs = text ++ [0xFFFD]) := by
  let decoded : List (Option ℕ) → JsString := fun ns => ns.flatMap fun n => fromCodePoint (n.getD 0xFFFD)
  have hinside := Decoder.feed_inside Decoder.inside_start xs
  refine ⟨decoded (Decoder.start.feed xs).2, decoded ((Decoder.start.feed xs).1.run ys), ?_, ?_, ?_⟩
  · rw [utf8Decode, Decoder.run_append, List.flatMap_append]
  · intro hys
    obtain ⟨n, ns, hrun⟩ := List.exists_cons_of_ne_nil (Decoder.run_ne_nil hinside (.inl hys))
    rw [hrun]
    exact List.append_ne_nil_of_left_ne_nil (fromCodePoint_ne_nil _) _
  · rw [utf8Decode, Decoder.run_eq, List.flatMap_append, Decoder.flush]
    split
    · exact .inl (List.append_nil _)
    · exact .inr rfl

end NetworkServers.Js
