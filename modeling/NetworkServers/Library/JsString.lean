import Mathlib.Data.Bool.AllAny
import Mathlib.Data.List.Basic

/-!
# JavaScript Strings

Strings as JavaScript has them: lists of UTF-16 code units, which need not pair up to
characters. The file defines the string functions of the language that programs build
on, UTF-8 in both directions, and percent-decoding. Decoding UTF-8 is one state machine
that marks malformed input; the lossy and the strict decoder differ only in what they
do with a mark.
-/

namespace NetworkServers

/-- A string as a list of UTF-16 code units. -/
abbrev JsString := List UInt16

/-- A string literal of characters of one code unit each. -/
def js (s : String) : JsString := s.toList.map fun c => c.toNat.toUInt16

namespace Js

/-! ## Splitting and replacing -/

section Pieces

variable {α : Type} [DecidableEq α]

/-- `split` with `skip` more elements of a separator to pass. -/
def splitFrom (sep : List α) : List α → ℕ → List (List α)
  | [], _ => [[]]
  | _ :: s, skip + 1 => splitFrom sep s skip
  | c :: s, 0 =>
    if sep.isPrefixOf (c :: s) then [] :: splitFrom sep s (sep.length - 1)
    else (splitFrom sep s 0).modifyHead (c :: ·)

/-- `s.split(sep)` for a separator that is not empty. -/
def split (sep s : List α) : List (List α) := splitFrom sep s 0

theorem splitFrom_ne_nil (sep s : List α) (skip : ℕ) : splitFrom sep s skip ≠ [] := by
  induction s generalizing skip with
  | nil => simp [splitFrom]
  | cons c s ih =>
    cases skip with
    | succ skip => exact ih skip
    | zero =>
      unfold splitFrom
      split
      · simp
      · rcases List.exists_cons_of_ne_nil (ih 0) with ⟨part, parts, heq⟩
        simp [heq]

/-- Splitting gives at least one part. -/
theorem split_ne_nil (sep s : List α) : split sep s ≠ [] := splitFrom_ne_nil sep s 0

/-- Whether `part` occurs in `s`: `s.includes(part)`. -/
def includes (part : List α) (s : List α) : Bool := s.tails.any part.isPrefixOf

/-- Replace matches from left to right. `pattern` looks at the rest of the string and
gives the length of a match, less one, and its replacement; `skip` more elements of a
match have to be passed. -/
def replaceFrom (pattern : List α → Option (ℕ × List α)) : List α → ℕ → List α
  | [], _ => []
  | _ :: s, skip + 1 => replaceFrom pattern s skip
  | c :: s, 0 =>
    match pattern (c :: s) with
    | some (skip, replacement) => replacement ++ replaceFrom pattern s skip
    | none => c :: replaceFrom pattern s 0

/-- `s.replace(/c/g, replacement)` for one character. -/
def replaceChar (c : α) (replacement s : List α) : List α :=
  s.flatMap fun d => if d = c then replacement else [d]

end Pieces

/-! ## Code points -/

/-- The code points of a string. A surrogate without its partner counts as U+FFFD. -/
def codePoints : JsString → List ℕ
  | [] => []
  | [c] => [if 0xD800 ≤ c ∧ c ≤ 0xDFFF then 0xFFFD else c.toNat]
  | c :: d :: s =>
    if 0xD800 ≤ c ∧ c ≤ 0xDBFF ∧ 0xDC00 ≤ d ∧ d ≤ 0xDFFF then
      (0x10000 + (c.toNat - 0xD800) * 0x400 + (d.toNat - 0xDC00)) :: codePoints s
    else (if 0xD800 ≤ c ∧ c ≤ 0xDFFF then 0xFFFD else c.toNat) :: codePoints (d :: s)

/-- The code units of a code point. -/
def fromCodePoint (n : ℕ) : JsString :=
  if n < 0x10000 then [n.toUInt16]
  else [(0xD800 + (n - 0x10000) / 0x400).toUInt16, (0xDC00 + (n - 0x10000) % 0x400).toUInt16]

/-! ## UTF-8 -/

/-- The UTF-8 bytes of a code point. -/
def utf8OfCodePoint (n : ℕ) : List UInt8 :=
  if n < 0x80 then [n.toUInt8]
  else if n < 0x800 then [(0xC0 + n / 0x40).toUInt8, (0x80 + n % 0x40).toUInt8]
  else if n < 0x10000 then
    [(0xE0 + n / 0x1000).toUInt8, (0x80 + n / 0x40 % 0x40).toUInt8, (0x80 + n % 0x40).toUInt8]
  else
    [(0xF0 + n / 0x40000).toUInt8, (0x80 + n / 0x1000 % 0x40).toUInt8,
      (0x80 + n / 0x40 % 0x40).toUInt8, (0x80 + n % 0x40).toUInt8]

/-- `Buffer.from(s)`. -/
def utf8Encode (s : JsString) : List UInt8 := (codePoints s).flatMap utf8OfCodePoint

/-- A decoder in the middle of a character: the bits so far, how many bytes are
missing, and the range in which the next one has to be. -/
structure Decoder where
  codePoint : ℕ
  missing : ℕ
  lower : UInt8
  upper : UInt8
deriving DecidableEq, Repr

/-- A decoder between two characters. -/
def Decoder.start : Decoder := { codePoint := 0, missing := 0, lower := 0x80, upper := 0xBF }

/-- The first byte of a character. The output lists code points, and `none` for
malformed bytes. -/
def Decoder.lead (b : UInt8) : Decoder × List (Option ℕ) :=
  if b < 0x80 then (.start, [some b.toNat])
  else if 0xC2 ≤ b ∧ b ≤ 0xDF then
    ({ Decoder.start with codePoint := b.toNat % 0x20, missing := 1 }, [])
  else if 0xE0 ≤ b ∧ b ≤ 0xEF then
    ({ codePoint := b.toNat % 0x10, missing := 2
       lower := if b = 0xE0 then 0xA0 else 0x80
       upper := if b = 0xED then 0x9F else 0xBF }, [])
  else if 0xF0 ≤ b ∧ b ≤ 0xF4 then
    ({ codePoint := b.toNat % 0x08, missing := 3
       lower := if b = 0xF0 then 0x90 else 0x80
       upper := if b = 0xF4 then 0x8F else 0xBF }, [])
  else (.start, [none])

/-- The next byte. A byte that does not continue a character begins the next one. -/
def Decoder.step (d : Decoder) (b : UInt8) : Decoder × List (Option ℕ) :=
  if d.missing = 0 then Decoder.lead b
  else if b < d.lower ∨ d.upper < b then
    let (d', out) := Decoder.lead b
    (d', none :: out)
  else
    let n := d.codePoint * 0x40 + b.toNat % 0x40
    if d.missing = 1 then (.start, [some n])
    else ({ Decoder.start with codePoint := n, missing := d.missing - 1 }, [])

/-- The code points that bytes stand for, with `none` for malformed parts. -/
def Decoder.run (d : Decoder) : List UInt8 → List (Option ℕ)
  | [] => if d.missing = 0 then [] else [none]
  | b :: bytes =>
    let (d', out) := d.step b
    out ++ d'.run bytes

/-- `buffer.toString()`: malformed parts become U+FFFD. -/
def utf8Decode (bytes : List UInt8) : JsString :=
  (Decoder.start.run bytes).flatMap fun n => fromCodePoint (n.getD 0xFFFD)

/-! ## Hexadecimal digits -/

/-- The digit for a number below 16. -/
def hexDigit (n : ℕ) : UInt16 := if n < 10 then (48 + n).toUInt16 else (87 + n).toUInt16

/-- `buffer.toString("hex")`. -/
def hexEncode (bytes : List UInt8) : JsString :=
  bytes.flatMap fun b => [hexDigit (b.toNat / 16), hexDigit (b.toNat % 16)]

/-- The value of a hexadecimal digit of either case. -/
def hexValue (c : UInt16) : Option ℕ :=
  if 48 ≤ c ∧ c ≤ 57 then some (c.toNat - 48)
  else if 97 ≤ c ∧ c ≤ 102 then some (c.toNat - 87)
  else if 65 ≤ c ∧ c ≤ 70 then some (c.toNat - 55)
  else none

/-! ## Injectivity -/

theorem hexDigit_inj : ∀ m < 16, ∀ n < 16, hexDigit m = hexDigit n → m = n := by decide

theorem hexEncode_inj {xs ys : List UInt8} (h : hexEncode xs = hexEncode ys) : xs = ys := by
  induction xs generalizing ys with
  | nil =>
    cases ys with
    | nil => rfl
    | cons y ys => simp [hexEncode] at h
  | cons x xs ih =>
    cases ys with
    | nil => simp [hexEncode] at h
    | cons y ys =>
      simp only [hexEncode, List.flatMap_cons, List.cons_append, List.nil_append,
        List.cons.injEq] at h
      obtain ⟨hhigh, hlow, htail⟩ := h
      have hx := x.toNat_lt
      have hy := y.toNat_lt
      have h1 := hexDigit_inj _ (by omega) _ (by omega) hhigh
      have h2 := hexDigit_inj _ (by omega) _ (by omega) hlow
      have hxy : x = y := UInt8.toNat_inj.mp (by omega)
      rw [hxy, ih htail]

/-- A hexadecimal digit is a digit or a lower-case letter. -/
theorem hexDigit_range : ∀ n < 16, 48 ≤ hexDigit n ∧ hexDigit n < 128 := by decide

/-- Every byte gives two hexadecimal digits. -/
theorem exists_hexDigit {c : UInt16} {bytes : List UInt8} (hc : c ∈ hexEncode bytes) :
    ∃ n < 16, c = hexDigit n := by
  obtain ⟨b, -, hb⟩ := List.mem_flatMap.mp hc
  have hlt := b.toNat_lt
  simp only [List.mem_cons, List.not_mem_nil, or_false] at hb
  rcases hb with rfl | rfl
  · exact ⟨_, by omega, rfl⟩
  · exact ⟨_, by omega, rfl⟩

theorem mem_hexEncode {c : UInt16} {bytes : List UInt8} (hc : c ∈ hexEncode bytes) :
    48 ≤ c ∧ c < 128 := by
  obtain ⟨n, hn, rfl⟩ := exists_hexDigit hc
  exact hexDigit_range n hn

theorem length_hexEncode (bytes : List UInt8) : (hexEncode bytes).length = 2 * bytes.length := by
  induction bytes with
  | nil => rfl
  | cons b bytes ih =>
    have hcons : hexEncode (b :: bytes) =
        hexDigit (b.toNat / 16) :: hexDigit (b.toNat % 16) :: hexEncode bytes := rfl
    rw [hcons, List.length_cons, List.length_cons, List.length_cons, ih, Nat.mul_add]

/-- ASCII characters are their own code points. -/
theorem codePoints_ascii {s : JsString} (h : ∀ c ∈ s, c < 128) :
    codePoints s = s.map UInt16.toNat := by
  fun_induction codePoints s with
  | case1 => rfl
  | case2 c =>
    have hc := h c List.mem_cons_self
    have hnot : ¬(0xD800 ≤ c ∧ c ≤ 0xDFFF) := by grind
    simp [hnot]
  | case3 c d s hpair ih =>
    have hc := h c List.mem_cons_self
    exact absurd hpair.1 (by grind)
  | case4 c d s hpair ih =>
    have hc := h c List.mem_cons_self
    have hnot : ¬(0xD800 ≤ c ∧ c ≤ 0xDFFF) := by grind
    rw [if_neg hnot, ih fun e he => h e (List.mem_cons_of_mem _ he)]
    rfl

theorem utf8Encode_ascii {s : JsString} (h : ∀ c ∈ s, c < 128) :
    utf8Encode s = s.map fun c => c.toNat.toUInt8 := by
  rw [utf8Encode, codePoints_ascii h, List.flatMap_map]
  induction s with
  | nil => rfl
  | cons c s ih =>
    have hc : c.toNat < 128 := h c List.mem_cons_self
    rw [List.flatMap_cons, ih fun e he => h e (List.mem_cons_of_mem _ he), List.map_cons,
      utf8OfCodePoint, if_pos hc]
    rfl

/-- An ASCII character does not join what stands around it. -/
theorem codePoints_append_cons {c : UInt16} (hc : c < 128) (a b : JsString) :
    codePoints (a ++ c :: b) = codePoints a ++ c.toNat :: codePoints b := by
  have hnot : ¬(0xD800 ≤ c ∧ c ≤ 0xDFFF) := by grind
  have hlow : ¬(0xDC00 ≤ c ∧ c ≤ 0xDFFF) := by grind
  have hhere : ∀ b, codePoints (c :: b) = c.toNat :: codePoints b := by
    intro b
    cases b with
    | nil => simp [codePoints, hnot]
    | cons d b =>
      have hpair : ¬(0xD800 ≤ c ∧ c ≤ 0xDBFF ∧ 0xDC00 ≤ d ∧ d ≤ 0xDFFF) := by grind
      rw [codePoints, if_neg hpair, if_neg hnot]
  fun_induction codePoints a with
  | case1 => exact hhere b
  | case2 d =>
    -- a lead surrogate at the end of `a` finds no trail surrogate in `c`
    have hpair : ¬(0xD800 ≤ d ∧ d ≤ 0xDBFF ∧ 0xDC00 ≤ c ∧ c ≤ 0xDFFF) := fun h => hlow h.2.2
    show codePoints (d :: c :: b) = _
    rw [codePoints, if_neg hpair, hhere]
    rfl
  | case3 d e s hpair ih =>
    show codePoints (d :: e :: (s ++ c :: b)) = _
    rw [codePoints, if_pos hpair, ih]
    rfl
  | case4 d e s hpair ih =>
    show codePoints (d :: e :: (s ++ c :: b)) = _
    rw [codePoints, if_neg hpair]
    exact congrArg _ ih

theorem utf8Encode_append_cons {c : UInt16} (hc : c < 128) (a b : JsString) :
    utf8Encode (a ++ c :: b) = utf8Encode a ++ c.toNat.toUInt8 :: utf8Encode b := by
  have hbyte : c.toNat < 0x80 := hc
  rw [utf8Encode, codePoints_append_cons hc, List.flatMap_append, List.flatMap_cons,
    utf8OfCodePoint, if_pos hbyte]
  rfl

theorem utf8OfCodePoint_ne_nil (n : ℕ) : utf8OfCodePoint n ≠ [] := by
  unfold utf8OfCodePoint
  split
  · simp
  split
  · simp
  split <;> simp

theorem utf8Encode_ne_nil {s : JsString} (h : s ≠ []) : utf8Encode s ≠ [] := by
  obtain ⟨n, rest, hcons⟩ : ∃ n rest, codePoints s = n :: rest := by
    fun_cases codePoints s with
    | case1 => exact absurd rfl h
    | case2 c => exact ⟨_, _, rfl⟩
    | case3 c d s hpair => exact ⟨_, _, rfl⟩
    | case4 c d s hpair => exact ⟨_, _, rfl⟩
  rw [utf8Encode, hcons, List.flatMap_cons]
  exact fun hnil => utf8OfCodePoint_ne_nil n (List.append_eq_nil_iff.mp hnil).1

theorem utf8Encode_inj_ascii {s t : JsString} (hs : ∀ c ∈ s, c < 128) (ht : ∀ c ∈ t, c < 128)
    (h : utf8Encode s = utf8Encode t) : s = t := by
  rw [utf8Encode_ascii hs, utf8Encode_ascii ht] at h
  induction s generalizing t with
  | nil =>
    cases t with
    | nil => rfl
    | cons d t => cases h
  | cons c s ih =>
    cases t with
    | nil => cases h
    | cons d t =>
      simp only [List.map_cons, List.cons.injEq] at h
      have hc : c.toNat < 128 := hs c List.mem_cons_self
      have hd : d.toNat < 128 := ht d List.mem_cons_self
      have hcd : c = d := by
        apply UInt16.toNat_inj.mp
        have := congrArg UInt8.toNat h.1
        simp only [Nat.toUInt8, UInt8.toNat_ofNat'] at this
        omega
      rw [hcd, ih (fun e he => hs e (List.mem_cons_of_mem _ he))
        (fun e he => ht e (List.mem_cons_of_mem _ he)) h.2]

/-! ## Percent-decoding -/

/-- A code unit that stands for itself, or a byte written `%XX`. -/
inductive PercentToken where
  | unit (c : UInt16)
  | byte (b : UInt8)
deriving DecidableEq, Repr

/-- The tokens of a percent-encoded string, unless a `%` is not followed by two
hexadecimal digits. -/
def percentTokens : JsString → Option (List PercentToken)
  | [] => some []
  | [c] => if c = 37 then none else some [.unit c]
  | [c, d] => if c = 37 then none else (.unit c :: ·) <$> percentTokens [d]
  | c :: h :: l :: s =>
    if c = 37 then do
      let high ← hexValue h
      let low ← hexValue l
      (.byte (high * 16 + low).toUInt8 :: ·) <$> percentTokens s
    else (.unit c :: ·) <$> percentTokens (h :: l :: s)

/-- Decode the bytes among the tokens strictly, from a decoder in any state. -/
def decodeTokens (d : Decoder) : List PercentToken → Option JsString
  | [] => if d.missing = 0 then some [] else none
  | .unit c :: tokens =>
    -- a character has to be complete before another one begins
    if d.missing = 0 then (c :: ·) <$> decodeTokens d tokens else none
  | .byte b :: tokens =>
    let (d', out) := d.step b
    if none ∈ out then none
    else (out.flatMap (fun n => fromCodePoint (n.getD 0)) ++ ·) <$> decodeTokens d' tokens

/-- `decodeURIComponent(s)`, `none` where it throws. -/
def decodeURIComponent (s : JsString) : Option JsString :=
  percentTokens s >>= decodeTokens Decoder.start

example : decodeURIComponent (js "%E4%BD%A0+%40") = some ([0x4F60] ++ js "+@") := by decide

example : decodeURIComponent (js "%E4%BD") = none := by decide

end Js

end NetworkServers
