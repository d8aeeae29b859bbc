import Mathlib.Data.List.DropRight
import NetworkServers.Library.Utf8Encoding

/-!
# Trimming

`trim` of JavaScript strings: white space and line terminators are taken away at both ends,
and nothing inside is touched.
-/

namespace NetworkServers.Js

/-- White space and line terminators. -/
def isWhitespace (c : UInt16) : Bool :=
  (9 ≤ c ∧ c ≤ 13) ∨ c = 0x20 ∨ c = 0xA0 ∨ c = 0x1680 ∨ (0x2000 ≤ c ∧ c ≤ 0x200A) ∨ c = 0x2028 ∨
    c = 0x2029 ∨ c = 0x202F ∨ c = 0x205F ∨ c = 0x3000 ∨ c = 0xFEFF

/-- `s.trim()`. -/
def trim (s : JsString) : JsString := (s.dropWhile isWhitespace).rdropWhile isWhitespace

/-- A string with no white space at its ends. -/
structure Trimmed (s : JsString) : Prop where
  head : ∀ c ∈ s.head?, isWhitespace c = false
  last : ∀ c ∈ s.getLast?, isWhitespace c = false

variable {s t : JsString}

theorem dropWhile_eq_self (h : ∀ c ∈ s.head?, isWhitespace c = false) :
    s.dropWhile isWhitespace = s := by
  cases s with
  | nil => rfl
  | cons c s => rw [List.dropWhile_cons_of_neg (by simpa using h c rfl)]

theorem rdropWhile_eq_self (h : ∀ c ∈ s.getLast?, isWhitespace c = false) :
    s.rdropWhile isWhitespace = s := by
  apply List.rdropWhile_eq_self_iff.mpr
  intro hne
  have hlast := h _ (List.getLast?_eq_some_getLast hne)
  simpa using hlast

theorem trim_eq_self (h : Trimmed s) : trim s = s := by
  rw [trim, dropWhile_eq_self h.head, rdropWhile_eq_self h.last]

/-- What `trim` gives begins and ends with other characters. -/
theorem trimmed_trim (s : JsString) : Trimmed (trim s) where
  head := by
    intro c hc
    -- the first character is that of what is left after the white space in front
    obtain ⟨rest, hrest⟩ := List.rdropWhile_prefix isWhitespace (l := s.dropWhile isWhitespace)
    obtain ⟨tail, htail⟩ := List.head?_eq_some_iff.mp hc
    have hleft : s.dropWhile isWhitespace = c :: (tail ++ rest) := by
      rw [← hrest, ← List.cons_append, ← htail]
      rfl
    have hne : s.dropWhile isWhitespace ≠ [] := by simp [hleft]
    have hfirst := List.head_dropWhile_not isWhitespace hne
    simpa only [hleft, List.head_cons] using hfirst
  last := by
    intro c hc
    have hne : trim s ≠ [] := by
      rintro hnil
      rw [hnil] at hc
      cases hc
    have hlast := List.rdropWhile_last_not isWhitespace (s.dropWhile isWhitespace) hne
    rw [List.getLast?_eq_some_getLast hne] at hc
    obtain rfl := Option.some.inj hc
    exact Bool.eq_false_iff.mpr hlast

/-- A string with some other character does not vanish. -/
theorem trim_ne_nil {c : UInt16} (hc : c ∈ s) (hspace : isWhitespace c = false) : trim s ≠ [] := by
  intro hnil
  have hall := List.rdropWhile_eq_nil_iff.mp hnil
  -- the character is still there after the white space in front is gone
  have hmem : c ∈ s.takeWhile isWhitespace ++ s.dropWhile isWhitespace := by
    rwa [List.takeWhile_append_dropWhile]
  rcases List.mem_append.mp hmem with hfront | hback
  · rw [List.mem_takeWhile_imp hfront] at hspace
    cases hspace
  · rw [hall c hback] at hspace
    cases hspace

/-- White space at the end of a string that begins with another character. -/
theorem trim_concat {c d : UInt16} (hhead : ∀ e ∈ s.head?, isWhitespace e = false)
    (hc : isWhitespace c = false) (hd : isWhitespace d = true) : trim (s ++ [c, d]) = s ++ [c] := by
  have hstart : ∀ e ∈ (s ++ [c, d]).head?, isWhitespace e = false := by
    cases s with
    | nil => exact fun e he => Option.some.inj he ▸ hc
    | cons e s => exact hhead
  have hsplit : s ++ [c, d] = (s ++ [c]) ++ [d] := by simp
  rw [trim, dropWhile_eq_self hstart, hsplit, List.rdropWhile_concat_pos _ _ _ hd,
    List.rdropWhile_concat_neg _ _ _ (by simp [hc])]

/-! ## Trimming well-formed text -/

theorem isScalar_of_isWhitespace {c : UInt16} (hc : isWhitespace c) : IsScalar c.toNat := by
  simp only [isWhitespace, decide_eq_true_eq, UInt16.le_iff_toNat_le, ← UInt16.toNat_inj,
    UInt16.reduceToNat] at hc
  unfold IsScalar
  omega

theorem IsWellFormed.dropWhile {s : JsString} (h : IsWellFormed s) :
    IsWellFormed (s.dropWhile isWhitespace) := by
  induction s with
  | nil => exact h
  | cons c s ih =>
    by_cases hc : isWhitespace c
    · rw [List.dropWhile_cons_of_pos hc]
      exact ih (h.tail (isScalar_of_isWhitespace hc))
    · rwa [List.dropWhile_cons_of_neg hc]

theorem IsWellFormed.rdropWhile {s : JsString} (h : IsWellFormed s) :
    IsWellFormed (s.rdropWhile isWhitespace) := by
  induction s using List.reverseRecOn with
  | nil => exact h
  | append_singleton s c ih =>
    by_cases hc : isWhitespace c
    · rw [List.rdropWhile_concat_pos _ _ _ hc]
      exact ih (h.init (isScalar_of_isWhitespace hc))
    · rwa [List.rdropWhile_concat_neg _ _ _ hc]

theorem IsWellFormed.trim {s : JsString} (h : IsWellFormed s) : IsWellFormed (trim s) :=
  h.dropWhile.rdropWhile

end NetworkServers.Js
