import NetworkServers.Library.Utf8Encoding

/-!
# Form Encoding

`application/x-www-form-urlencoded` text, as browsers write it: letters, digits and `*-._`
stand for themselves, a space is a plus sign, and every other UTF-8 byte is `%XX`. Turning
plus signs into spaces and then `decodeURIComponent` gives the text back.
-/

namespace NetworkServers.Js

/-! ## Encoding -/

/-- The UTF-16 code units of a string of Unicode characters. -/
def utf16 (m : String) : JsString := m.toList.flatMap fun c => fromCodePoint c.toNat

/-- A letter, a digit, or one of `*-._`. -/
def isKept (n : ℕ) : Bool :=
  (48 ≤ n && n ≤ 57) || (65 ≤ n && n ≤ 90) || (97 ≤ n && n ≤ 122) ||
    n = 42 || n = 45 || n = 46 || n = 95

/-- An upper-case hexadecimal digit. -/
def upperHexDigit (n : ℕ) : UInt16 := if n < 10 then (48 + n).toUInt16 else (55 + n).toUInt16

/-- `%XX`. -/
def percentByte (b : UInt8) : JsString :=
  [37, upperHexDigit (b.toNat / 16), upperHexDigit (b.toNat % 16)]

/-- The form of one character. -/
def formUnit (n : ℕ) : JsString :=
  if isKept n then [n.toUInt16]
  else if n = 32 then [43]
  else (utf8OfCodePoint n).flatMap percentByte

/-- The form of a string. -/
def formEncode (m : String) : JsString := m.toList.flatMap fun c => formUnit c.toNat

example : formEncode "1 + é" = js "1+%2B+%C3%A9" := by decide

/-! ## Separators -/

theorem lt_of_isKept {n : ℕ} (h : isKept n) : n < 0x80 := by
  simp only [isKept, Bool.or_eq_true, Bool.and_eq_true, decide_eq_true_iff] at h
  omega

theorem upperHexDigit_ne : ∀ n < 16, upperHexDigit n ≠ 13 ∧ upperHexDigit n ≠ 38 ∧
    upperHexDigit n ≠ 43 ∧ upperHexDigit n ≠ 61 := by decide

/-- What separates lines, fields, and names from values does not occur in a form. -/
theorem formEncode_ne {m : String} {c : UInt16} (hc : c ∈ formEncode m) :
    c ≠ 13 ∧ c ≠ 38 ∧ c ≠ 61 := by
  obtain ⟨char, -, hc⟩ := List.mem_flatMap.mp hc
  unfold formUnit at hc
  split at hc
  · rename_i hkept
    obtain rfl := List.mem_singleton.mp hc
    have hlt := lt_of_isKept hkept
    have htoNat : char.toNat.toUInt16.toNat = char.toNat :=
      UInt16.toNat_ofNat_of_lt' (by show _ < 0x10000; omega)
    simp only [isKept, Bool.or_eq_true, Bool.and_eq_true, decide_eq_true_iff] at hkept
    simp only [ne_eq, ← UInt16.toNat_inj, htoNat]
    show ¬char.toNat = 13 ∧ ¬char.toNat = 38 ∧ ¬char.toNat = 61
    omega
  split at hc
  · obtain rfl := List.mem_singleton.mp hc
    decide
  · obtain ⟨b, -, hb⟩ := List.mem_flatMap.mp hc
    have hlt := b.toNat_lt
    simp only [percentByte, List.mem_cons, List.not_mem_nil, or_false] at hb
    rcases hb with rfl | rfl | rfl
    · decide
    · obtain ⟨h13, h38, -, h61⟩ := upperHexDigit_ne (b.toNat / 16) (by omega)
      exact ⟨h13, h38, h61⟩
    · obtain ⟨h13, h38, -, h61⟩ := upperHexDigit_ne (b.toNat % 16) (by omega)
      exact ⟨h13, h38, h61⟩

/-! ## Tokens -/

theorem hexValue_upperHexDigit : ∀ n < 16, hexValue (upperHexDigit n) = some n := by decide

/-- A character other than a percent sign is a token. -/
theorem percentTokens_unit {c : UInt16} (hc : c ≠ 37) (s : JsString) :
    percentTokens (c :: s) = (PercentToken.unit c :: ·) <$> percentTokens s := by
  match s with
  | [] => simp [percentTokens, hc]
  | [d] => simp only [percentTokens, if_neg hc]
  | d :: e :: s => simp only [percentTokens, if_neg hc]

/-- A byte is a token. -/
theorem percentTokens_byte (b : UInt8) (s : JsString) :
    percentTokens (percentByte b ++ s) = (PercentToken.byte b :: ·) <$> percentTokens s := by
  have hlt := b.toNat_lt
  have hvalue : b.toNat / 16 * 16 + b.toNat % 16 = b.toNat := by omega
  show percentTokens (37 :: upperHexDigit _ :: upperHexDigit _ :: s) = _
  rw [percentTokens, if_pos rfl, hexValue_upperHexDigit _ (by omega),
    hexValue_upperHexDigit _ (by omega)]
  show (PercentToken.byte (b.toNat / 16 * 16 + b.toNat % 16).toUInt8 :: ·) <$> percentTokens s = _
  rw [hvalue]
  have hbyte : b.toNat.toUInt8 = b := UInt8.ofNat_toNat
  rw [hbyte]

/-- The tokens of one character. -/
def formTokens (n : ℕ) : List PercentToken :=
  if isKept n ∨ n = 32 then [.unit n.toUInt16] else (utf8OfCodePoint n).map .byte

theorem percentTokens_bytes (bytes : List UInt8) (s : JsString) :
    percentTokens (bytes.flatMap percentByte ++ s) =
      (bytes.map PercentToken.byte ++ ·) <$> percentTokens s := by
  induction bytes with
  | nil => simp
  | cons b bytes ih =>
    rw [List.flatMap_cons, List.append_assoc, percentTokens_byte, ih, List.map_cons]
    cases percentTokens s with
    | none => rfl
    | some tokens => rfl

/-- Bytes in percent form hold no plus sign. -/
theorem replaceChar_percentBytes (bytes : List UInt8) :
    replaceChar 43 (js " ") (bytes.flatMap percentByte) = bytes.flatMap percentByte := by
  induction bytes with
  | nil => rfl
  | cons b bytes ih =>
    have hlt := b.toNat_lt
    have hhigh := (upperHexDigit_ne (b.toNat / 16) (by omega)).2.2.1
    have hlow := (upperHexDigit_ne (b.toNat % 16) (by omega)).2.2.1
    have hbyte : replaceChar 43 (js " ") (percentByte b) = percentByte b := by
      simp [replaceChar, percentByte, hhigh, hlow]
    rw [List.flatMap_cons, replaceChar, List.flatMap_append]
    exact congrArg₂ _ hbyte ih

/-- Percent signs, and plus signs for spaces, come only from the encoding. -/
theorem percentTokens_formUnit (n : ℕ) (s : JsString) :
    percentTokens (replaceChar 43 (js " ") (formUnit n) ++ s) =
      (formTokens n ++ ·) <$> percentTokens s := by
  unfold formUnit formTokens
  split
  · -- a character that stands for itself is neither a plus nor a percent sign
    rename_i hkept
    have hlt := lt_of_isKept hkept
    have htoNat : n.toUInt16.toNat = n := UInt16.toNat_ofNat_of_lt' (by show n < 0x10000; omega)
    have hne : n.toUInt16 ≠ 43 ∧ n.toUInt16 ≠ 37 := by
      simp only [isKept, Bool.or_eq_true, Bool.and_eq_true, decide_eq_true_iff] at hkept
      simp only [ne_eq, ← UInt16.toNat_inj, htoNat]
      show ¬n = 43 ∧ ¬n = 37
      omega
    have hreplace : replaceChar 43 (js " ") [n.toUInt16] = [n.toUInt16] := by
      simp [replaceChar, hne.1]
    rw [if_pos (.inl hkept), hreplace]
    exact percentTokens_unit hne.2 s
  split
  · -- a space comes as a plus sign
    rename_i hspace
    rw [if_pos (.inr hspace), hspace]
    exact percentTokens_unit (by decide) s
  · rename_i hkept hspace
    rw [if_neg (not_or.mpr ⟨hkept, hspace⟩), replaceChar_percentBytes]
    exact percentTokens_bytes _ s

/-! ## Decoding -/

/-- Bytes without malformed parts among them, strictly decoded. -/
theorem decodeTokens_bytes {d : Decoder} {bytes : List UInt8} (h : none ∉ (d.feed bytes).2)
    (tokens : List PercentToken) :
    decodeTokens d (bytes.map .byte ++ tokens) =
      ((d.feed bytes).2.flatMap (fun n => fromCodePoint (n.getD 0)) ++ ·) <$>
        decodeTokens (d.feed bytes).1 tokens := by
  induction bytes generalizing d with
  | nil => simp [Decoder.feed]
  | cons b bytes ih =>
    rw [Decoder.feed, List.mem_append, not_or] at h
    rw [List.map_cons, List.cons_append, decodeTokens]
    dsimp only
    rw [if_neg h.1, ih h.2, Decoder.feed]
    cases decodeTokens (((d.step b).1.feed bytes).1) tokens with
    | none => rfl
    | some text => simp

/-- **One character** comes back. -/
theorem decodeTokens_formTokens {n : ℕ} (hn : IsScalar n) (tokens : List PercentToken) :
    decodeTokens Decoder.start (formTokens n ++ tokens) =
      (fromCodePoint n ++ ·) <$> decodeTokens Decoder.start tokens := by
  unfold formTokens
  split
  · -- one code unit, which is not part of a byte sequence
    rename_i hunit
    have hlt : n < 0x10000 := by
      rcases hunit with hkept | rfl
      · exact Nat.lt_trans (lt_of_isKept hkept) (by decide)
      · decide
    rw [fromCodePoint, if_pos hlt]
    exact if_pos rfl
  · have hfeed := Decoder.feed_utf8OfCodePoint hn
    rw [decodeTokens_bytes (by simp [hfeed]), hfeed]
    simp

theorem isScalar_toNat (c : Char) : IsScalar c.toNat := by
  rcases c.valid with h | ⟨hlow, hhigh⟩
  · exact .inl h
  · exact .inr ⟨hlow, hhigh⟩

/-- The tokens of an encoded text are those of its characters. -/
theorem percentTokens_formUnits (chars : List Char) :
    percentTokens (replaceChar 43 (js " ") (chars.flatMap fun c => formUnit c.toNat)) =
      some (chars.flatMap fun c => formTokens c.toNat) := by
  induction chars with
  | nil => rfl
  | cons c chars ih =>
    have hcons : replaceChar 43 (js " ") ((c :: chars).flatMap fun c => formUnit c.toNat) =
        replaceChar 43 (js " ") (formUnit c.toNat) ++
          replaceChar 43 (js " ") (chars.flatMap fun c => formUnit c.toNat) := by
      rw [List.flatMap_cons, replaceChar, List.flatMap_append]
      rfl
    rw [hcons, percentTokens_formUnit, ih]
    rfl

/-- The characters behind these tokens. -/
theorem decodeTokens_formUnits (chars : List Char) :
    decodeTokens Decoder.start (chars.flatMap fun c => formTokens c.toNat) =
      some (chars.flatMap fun c => fromCodePoint c.toNat) := by
  induction chars with
  | nil => rfl
  | cons c chars ih =>
    rw [List.flatMap_cons, decodeTokens_formTokens (isScalar_toNat c), ih]
    rfl

/-- **Decoding undoes the form encoding.** -/
theorem decodeURIComponent_formEncode (m : String) :
    decodeURIComponent (replaceChar 43 (js " ") (formEncode m)) = some (utf16 m) := by
  rw [decodeURIComponent, formEncode, percentTokens_formUnits]
  exact decodeTokens_formUnits m.toList

end NetworkServers.Js
