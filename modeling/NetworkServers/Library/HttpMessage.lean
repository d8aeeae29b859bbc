import Mathlib.Data.List.Infix
import Mathlib.Data.List.TakeWhile
import Mathlib.Data.Nat.Notation

/-!
# Reading HTTP/1.1 Messages

The receiving side of a connection, on the bytes that have arrived: lines that end in
CRLF, numerals, and the chunked transfer coding with its chunk extensions and trailer.
Each reader gives what it read and the bytes behind it, and each comes with the lemma
for the text that a sender writes for it, followed by anything at all.
-/

namespace NetworkServers.HttpMessage

/-! ## Lines -/

/-- The end of a line. -/
def crlf : List UInt8 := [13, 10]

/-- The text in front of the first mark, which is two bytes long, and the text behind it. -/
def splitAround (a b : UInt8) : List UInt8 → Option (List UInt8 × List UInt8)
  | [] => none
  | c :: s =>
    if [a, b].isPrefixOf (c :: s) then some ([], s.tail)
    else (splitAround a b s).map fun (before, rest) => (c :: before, rest)

/-- The first mark is the one behind a text that has none inside. The two bytes have to
differ, for otherwise a mark could begin at the end of the text. -/
theorem splitAround_mark {a b : UInt8} (hab : a ≠ b) {before : List UInt8}
    (hbefore : ¬[a, b] <:+: before) (rest : List UInt8) :
    splitAround a b (before ++ [a, b] ++ rest) = some (before, rest) := by
  induction before with
  | nil => simp [splitAround]
  | cons c before ih =>
    have hinner : ¬[a, b] <:+: before := fun h =>
      hbefore (h.trans (List.suffix_cons c before).isInfix)
    have hfirst : [a, b].isPrefixOf (c :: (before ++ [a, b] ++ rest)) = false := by
      rw [Bool.eq_false_iff]
      intro hprefix
      cases before with
      | nil => simp [hab.symm] at hprefix
      | cons d before =>
        -- the mark would be the first two bytes of the text itself
        simp only [List.cons_append, List.isPrefixOf, Bool.and_eq_true, beq_iff_eq] at hprefix
        obtain ⟨rfl, rfl, -⟩ := hprefix
        exact hbefore ⟨[], before, rfl⟩
    show splitAround a b (c :: (before ++ [a, b] ++ rest)) = some (c :: before, rest)
    rw [splitAround, hfirst, ih hinner]
    rfl

/-- What has been split stood around its mark. -/
theorem eq_of_splitAround {a b : UInt8} {s before rest : List UInt8}
    (h : splitAround a b s = some (before, rest)) : s = before ++ [a, b] ++ rest := by
  induction s generalizing before with
  | nil => cases h
  | cons c s ih =>
    rw [splitAround] at h
    split at h
    · rename_i hprefix
      obtain ⟨rfl, rfl⟩ := Prod.mk.injEq .. ▸ Option.some.inj h
      obtain ⟨t, ht⟩ := List.isPrefixOf_iff_prefix.mp hprefix
      obtain ⟨rfl, rfl⟩ := List.cons.injEq .. ▸ ht.symm
      rfl
    · obtain ⟨⟨before', rest'⟩, hbefore, heq⟩ := Option.map_eq_some_iff.mp h
      obtain ⟨rfl, rfl⟩ := Prod.mk.injEq .. ▸ heq
      rw [ih hbefore]
      rfl

/-- What cannot be split has no mark inside. -/
theorem not_mark_infix_of_splitAround {a b : UInt8} {s : List UInt8} (h : splitAround a b s = none) :
    ¬[a, b] <:+: s := by
  induction s with
  | nil => simp
  | cons c s ih =>
    rw [splitAround] at h
    split at h
    · cases h
    · rename_i hprefix
      rw [List.infix_cons_iff]
      rintro (hfirst | hinner)
      · exact hprefix (List.isPrefixOf_iff_prefix.mpr hfirst)
      · exact ih (Option.map_eq_none_iff.mp h) hinner

/-- A mark stays the first one when more bytes arrive. -/
theorem splitAround_append {a b : UInt8} {s before rest : List UInt8}
    (h : splitAround a b s = some (before, rest)) (t : List UInt8) :
    splitAround a b (s ++ t) = some (before, rest ++ t) := by
  induction s generalizing before with
  | nil => cases h
  | cons c s ih =>
    rw [splitAround] at h
    rw [List.cons_append, splitAround]
    split at h
    · rename_i hprefix
      obtain ⟨rfl, rfl⟩ := Prod.mk.injEq .. ▸ Option.some.inj h
      obtain ⟨t', ht'⟩ := List.isPrefixOf_iff_prefix.mp hprefix
      obtain ⟨rfl, rfl⟩ := List.cons.injEq .. ▸ ht'.symm
      simp
    · rename_i hprefix
      obtain ⟨⟨before', rest'⟩, hbefore, heq⟩ := Option.map_eq_some_iff.mp h
      obtain ⟨rfl, rfl⟩ := Prod.mk.injEq .. ▸ heq
      have hprefix' : ¬[a, b].isPrefixOf (c :: (s ++ t)) := by
        rw [eq_of_splitAround hbefore] at hprefix ⊢
        cases before' <;> simpa [List.isPrefixOf] using hprefix
      rw [if_neg hprefix', ih hbefore]
      rfl

/-- The line in front of the first CRLF, and the bytes behind it. -/
def splitLine (s : List UInt8) : Option (List UInt8 × List UInt8) := splitAround 13 10 s

/-- A line reads back if it has no CRLF inside. -/
theorem splitLine_crlf {line : List UInt8} (hline : ¬crlf <:+: line) (rest : List UInt8) :
    splitLine (line ++ crlf ++ rest) = some (line, rest) :=
  splitAround_mark (by decide) hline rest

/-- A line that has been read stood in front of its CRLF. -/
theorem eq_of_splitLine {s line rest : List UInt8} (h : splitLine s = some (line, rest)) :
    s = line ++ crlf ++ rest :=
  eq_of_splitAround h

/-- Without a CRLF there is no line. -/
theorem not_crlf_infix_of_splitLine {s : List UInt8} (h : splitLine s = none) :
    ¬crlf <:+: s :=
  not_mark_infix_of_splitAround h

/-- A line stays the first one when more bytes arrive. -/
theorem splitLine_append {s line rest : List UInt8} (h : splitLine s = some (line, rest))
    (t : List UInt8) : splitLine (s ++ t) = some (line, rest ++ t) :=
  splitAround_append h t

/-- Reading a line does not go beyond a CRLF that is there. -/
theorem suffix_of_splitLine {u t line rest : List UInt8}
    (h : splitLine (u ++ crlf ++ t) = some (line, rest)) : t <:+ rest := by
  cases hu : splitLine u with
  | none =>
    rw [splitLine_crlf (not_crlf_infix_of_splitLine hu)] at h
    obtain ⟨-, rfl⟩ := Prod.mk.injEq .. ▸ Option.some.inj h
    exact List.suffix_rfl
  | some lines =>
    rw [List.append_assoc, splitLine_append hu] at h
    obtain ⟨-, rfl⟩ := Prod.mk.injEq .. ▸ Option.some.inj h
    exact ((List.suffix_append crlf t).trans (List.suffix_append _ _))

/-! ## Numerals -/

/-- The numeral of a number to a base up to 16, with digits in lower case. -/
def numeral (b n : ℕ) : List UInt8 := (Nat.toDigits b n).map fun c => c.toNat.toUInt8

/-- The value of a digit, in either case. -/
def digitValue (c : UInt8) : Option ℕ :=
  if 48 ≤ c ∧ c ≤ 57 then some (c.toNat - 48)
  else if 97 ≤ c ∧ c ≤ 122 then some (c.toNat - 87)
  else if 65 ≤ c ∧ c ≤ 90 then some (c.toNat - 55)
  else none

/-- One more digit of a numeral. -/
def readDigit (b value : ℕ) (c : UInt8) : Option ℕ :=
  match digitValue c with
  | some d => if d < b then some (b * value + d) else none
  | none => none

/-- The value of a numeral, which has at least one digit. -/
def numeralValue (b : ℕ) (s : List UInt8) : Option ℕ :=
  if s = [] then none else s.foldlM (readDigit b) 0

theorem digitValue_digitChar {d : ℕ} (hd : d < 16) :
    digitValue (d.digitChar.toNat.toUInt8) = some d := by
  decide +revert

theorem readDigit_digitChar {b d : ℕ} (hb : b ≤ 16) (hd : d < b) (value : ℕ) :
    readDigit b value (d.digitChar.toNat.toUInt8) = some (b * value + d) := by
  rw [readDigit, digitValue_digitChar (hd.trans_le hb)]
  exact if_pos hd

theorem numeral_ne_nil (b n : ℕ) : numeral b n ≠ [] := by
  simp [numeral, Nat.toDigits_ne_nil]

/-- A number reads back from its numeral. -/
theorem numeralValue_numeral {b : ℕ} (hb : 1 < b) (hb' : b ≤ 16) (n : ℕ) :
    numeralValue b (numeral b n) = some n := by
  rw [numeralValue, if_neg (numeral_ne_nil b n)]
  induction n using Nat.strong_induction_on with
  | _ n ih =>
    rcases Nat.lt_or_ge n b with hlt | hge
    · rw [numeral, Nat.toDigits_of_lt_base hlt]
      simp [readDigit_digitChar hb' hlt]
    · -- the last digit is the remainder, and the digits in front of it are the quotient's
      have hdigit : n % b < b := Nat.mod_lt n (by omega)
      have hquot := ih (n / b) (Nat.div_lt_self (by omega) hb)
      rw [numeral] at hquot ⊢
      rw [Nat.toDigits_of_base_le hb hge, List.map_append, List.foldlM_append, hquot]
      show (do let value ← readDigit b (n / b) _; some value) = some n
      rw [readDigit_digitChar hb' hdigit, Nat.div_add_mod]
      rfl

/-- The digits of a numeral are digits. -/
theorem digitValue_isSome_of_mem_numeral {b n : ℕ} (hb : 1 < b) (hb' : b ≤ 16) {c : UInt8}
    (hc : c ∈ numeral b n) : (digitValue c).isSome := by
  induction n using Nat.strong_induction_on with
  | _ n ih =>
    rcases Nat.lt_or_ge n b with hlt | hge
    · rw [numeral, Nat.toDigits_of_lt_base hlt, List.map_singleton, List.mem_singleton] at hc
      rw [hc, digitValue_digitChar (by omega)]
      rfl
    · have hdigit : n % b < b := Nat.mod_lt n (by omega)
      rw [numeral, Nat.toDigits_of_base_le hb hge, List.map_append, List.mem_append] at hc
      rcases hc with hc | hc
      · exact ih (n / b) (Nat.div_lt_self (by omega) hb) hc
      · rw [List.map_singleton, List.mem_singleton] at hc
        rw [hc, digitValue_digitChar (by omega)]
        rfl

/-! ## Field lines -/

/-- Pass field lines up to the empty line; `fuel` bounds their number. -/
def skipFieldsFrom : ℕ → List UInt8 → Option (List UInt8)
  | 0, _ => none
  | fuel + 1, s =>
    match splitLine s with
    | none => none
    | some ([], rest) => some rest
    | some (_ :: _, rest) => skipFieldsFrom fuel rest

/-- The bytes behind the field lines of a header block or a trailer, and behind the empty
line that ends them. -/
def skipFields (s : List UInt8) : Option (List UInt8) := skipFieldsFrom (s.length + 1) s

theorem length_lt_of_splitLine {s line rest : List UInt8} (h : splitLine s = some (line, rest)) :
    rest.length < s.length := by
  rw [eq_of_splitLine h]
  simp only [List.length_append, crlf, List.length_cons]
  omega

/-- Fuel beyond the length is enough. -/
theorem skipFieldsFrom_eq {fuel : ℕ} {s : List UInt8} (hfuel : s.length < fuel) :
    skipFieldsFrom fuel s = skipFields s := by
  have hany : ∀ (n m : ℕ) (s : List UInt8), s.length < n → s.length < m →
      skipFieldsFrom n s = skipFieldsFrom m s := by
    intro n
    induction n with
    | zero => exact fun m s hn => absurd hn (Nat.not_lt_zero _)
    | succ n ih =>
      intro m s hn hm
      obtain ⟨m, rfl⟩ := Nat.exists_eq_succ_of_ne_zero (Nat.ne_zero_of_lt hm)
      simp only [skipFieldsFrom]
      split
      · rfl
      · rfl
      · rename_i heq
        have hlt := length_lt_of_splitLine heq
        exact ih m _ (by omega) (by omega)
  exact hany fuel (s.length + 1) s hfuel (Nat.lt_succ_self _)

/-- The fields line by line. -/
theorem skipFields_eq (s : List UInt8) : skipFields s =
    match splitLine s with
    | none => none
    | some ([], rest) => some rest
    | some (_ :: _, rest) => skipFields rest := by
  rw [skipFields, skipFieldsFrom]
  split
  · rfl
  · rfl
  · rename_i heq
    exact skipFieldsFrom_eq (length_lt_of_splitLine heq)

/-- Text that is one field line, or several with line ends between them: nowhere in it is
an empty line. -/
def FieldLines (text : List UInt8) : Prop := ¬(crlf ++ crlf) <:+: (crlf ++ text ++ crlf)

/-- An occurrence of a pattern lies on one side of an element that is not in it. -/
theorem infix_append_cons_iff {α : Type*} {pat a b : List α} {c : α} (hc : c ∉ pat) :
    pat <:+: a ++ c :: b ↔ pat <:+: a ∨ pat <:+: b := by
  constructor
  · rintro ⟨x, y, h⟩
    rcases List.append_eq_append_iff.mp h with ⟨a', ha, -⟩ | ⟨a', hx, hb⟩
    · exact .inl ⟨x, a', ha.symm⟩
    · cases a' with
      | nil => exact .inl ⟨x, [], by simpa using hx⟩
      | cons d a' =>
        obtain ⟨rfl, rfl⟩ := List.cons.injEq .. ▸ hb
        -- the element is on the left of the occurrence
        rcases List.append_eq_append_iff.mp hx with ⟨m, hm, hpat⟩ | ⟨m, hm, hpat⟩
        · exact absurd (hpat ▸ List.mem_append_right m List.mem_cons_self) hc
        · cases m with
          | nil =>
            obtain rfl : c :: a' = pat := hpat
            exact absurd List.mem_cons_self hc
          | cons e m =>
            obtain ⟨rfl, rfl⟩ := List.cons.injEq .. ▸ hpat
            exact .inr ⟨m, y, by simp⟩
  · rintro (h | h)
    · exact h.trans (List.prefix_append a _).isInfix
    · exact h.trans ((List.suffix_cons c b).trans (List.suffix_append a _)).isInfix

/-- There is no empty line where there are not two line ends. -/
theorem not_emptyLine_of_count {text : List UInt8} (h : text.count 13 < 2) :
    ¬(crlf ++ crlf) <:+: text := fun hinside =>
  absurd (hinside.sublist.count_le 13) (Nat.not_le_of_lt h)

/-- A line of text is a field line. -/
theorem FieldLines.of_line {c : UInt8} {line : List UInt8} (hc : c ∉ crlf) (hline : 13 ∉ line) :
    FieldLines (c :: line) := by
  have hpat : c ∉ crlf ++ crlf := by simpa using hc
  have hcount : line.count 13 = 0 := List.count_eq_zero.mpr hline
  show ¬(crlf ++ crlf) <:+: crlf ++ c :: (line ++ crlf)
  rw [infix_append_cons_iff hpat, not_or]
  refine ⟨not_emptyLine_of_count (by decide), not_emptyLine_of_count ?_⟩
  rw [List.count_append, hcount]
  decide

theorem FieldLines.ne_nil {text : List UInt8} (h : FieldLines text) : text ≠ [] := by
  rintro rfl
  exact h (List.infix_refl _)

/-- Field lines are passed. -/
theorem skipFields_lines {text : List UInt8} (htext : FieldLines text) (s : List UInt8) :
    skipFields (text ++ crlf ++ s) = skipFields s := by
  induction hn : text.length using Nat.strong_induction_on generalizing text with
  | _ n ih =>
    cases hsplit : splitLine text with
    | none =>
      obtain ⟨c, line, rfl⟩ := List.exists_cons_of_ne_nil htext.ne_nil
      rw [skipFields_eq, splitLine_crlf (not_crlf_infix_of_splitLine hsplit)]
    | some parts =>
      obtain ⟨line, text'⟩ := parts
      obtain rfl := eq_of_splitLine hsplit
      -- the first line is not empty, and neither is any line behind it
      have hline : line ≠ [] := by
        rintro rfl
        exact htext ⟨[], text' ++ crlf, by simp⟩
      have htext' : FieldLines text' := fun hinside => htext (hinside.trans ⟨crlf ++ line, [], by simp⟩)
      obtain ⟨c, line, rfl⟩ := List.exists_cons_of_ne_nil hline
      rw [List.append_assoc, skipFields_eq, splitLine_append hsplit]
      show skipFields (text' ++ (crlf ++ s)) = skipFields s
      rw [← List.append_assoc]
      exact ih text'.length (by simp [← hn, crlf]; omega) htext' rfl

/-- An empty line ends the fields. -/
theorem skipFields_crlf (s : List UInt8) : skipFields (crlf ++ s) = some s := rfl

/-- Passing fields does not go beyond an empty line that is there. -/
theorem suffix_of_skipFields {u t rest : List UInt8}
    (h : skipFields (u ++ crlf ++ crlf ++ t) = some rest) : t <:+ rest := by
  induction hn : u.length using Nat.strong_induction_on generalizing u with
  | _ n ih =>
    cases hsplit : splitLine u with
    | none =>
      -- the last field line ends at the first of the two line ends
      rw [List.append_assoc _ crlf t, skipFields_eq,
        splitLine_crlf (not_crlf_infix_of_splitLine hsplit)] at h
      cases u with
      | nil =>
        obtain rfl := Option.some.inj h
        exact List.suffix_append crlf t
      | cons c u =>
        obtain rfl := Option.some.inj ((skipFields_crlf t).symm.trans h)
        exact List.suffix_rfl
    | some parts =>
      obtain ⟨line, u'⟩ := parts
      have hlt := length_lt_of_splitLine hsplit
      rw [List.append_assoc, List.append_assoc, skipFields_eq, splitLine_append hsplit] at h
      cases line with
      | nil =>
        obtain rfl := Option.some.inj h
        exact ⟨u' ++ crlf ++ crlf, by simp⟩
      | cons c line =>
        apply ih u'.length (hn ▸ hlt) _ rfl
        simpa using h

/-! ## The chunked transfer coding -/

/-- The size in a chunk-size line. White space or a semicolon begins the extensions,
which are ignored. -/
def chunkSize (line : List UInt8) : Option ℕ :=
  numeralValue 16 (line.takeWhile fun c => c ≠ 59 ∧ c ≠ 32 ∧ c ≠ 9)

/-- The chunks from `s` on, up to the one of size zero; `fuel` bounds their number. -/
def readChunks : ℕ → List UInt8 → Option (List UInt8 × List UInt8)
  | 0, _ => none
  | fuel + 1, s => do
    let (line, s) ← splitLine s
    match ← chunkSize line with
    | 0 =>
      let rest ← skipFields s
      return ([], rest)
    | size =>
      -- the data, and the CRLF behind it
      if size ≤ s.length ∧ crlf.isPrefixOf (s.drop size) then
        let (body, rest) ← readChunks fuel (s.drop (size + crlf.length))
        return (s.take size ++ body, rest)
      else none

/-- A chunked body, and the bytes behind it. A chunk takes more than one byte, so the
length is enough fuel. -/
def decodeChunked (s : List UInt8) : Option (List UInt8 × List UInt8) :=
  readChunks (s.length + 1) s

/-- A chunk as it is sent. -/
def chunkBytes (data : List UInt8) : List UInt8 :=
  numeral 16 data.length ++ crlf ++ data ++ crlf

/-- The end of a chunked body without a trailer. -/
def lastChunk : List UInt8 := [48] ++ crlf ++ crlf

/-- A chunk-size line that is a numeral. -/
theorem chunkSize_numeral (n : ℕ) : chunkSize (numeral 16 n) = some n := by
  have hdigits : ∀ c ∈ numeral 16 n, decide (c ≠ 59 ∧ c ≠ 32 ∧ c ≠ 9) = true := by
    intro c hc
    have hsome := digitValue_isSome_of_mem_numeral (by decide) (by decide) hc
    rw [decide_eq_true_iff]
    refine ⟨?_, ?_, ?_⟩ <;> rintro rfl <;> exact absurd hsome (by decide)
  rw [chunkSize, List.takeWhile_eq_self_iff.mpr hdigits]
  exact numeralValue_numeral (by decide) (by decide) n

/-- A numeral has no CRLF inside. -/
theorem not_crlf_infix_numeral (n : ℕ) : ¬crlf <:+: numeral 16 n := by
  intro h
  have hmem : (13 : UInt8) ∈ numeral 16 n := h.subset (by decide)
  exact absurd (digitValue_isSome_of_mem_numeral (by decide) (by decide) hmem) (by decide)

/-- Reading one chunk. Its data is skipped by its length and never searched, so that it
may hold any bytes. -/
theorem readChunks_chunkBytes {data : List UInt8} (hdata : data ≠ []) (fuel : ℕ)
    (s : List UInt8) : readChunks (fuel + 1) (chunkBytes data ++ s) =
      (readChunks fuel s).map fun (body, rest) => (data ++ body, rest) := by
  obtain ⟨n, hn⟩ : ∃ n, data.length = n + 1 :=
    Nat.exists_eq_succ_of_ne_zero (List.length_pos_of_ne_nil hdata).ne'
  have hshape : chunkBytes data ++ s =
      numeral 16 data.length ++ crlf ++ (data ++ (crlf ++ s)) := by
    simp only [chunkBytes, List.append_assoc]
  have hline := splitLine_crlf (not_crlf_infix_numeral data.length) (data ++ (crlf ++ s))
  have hbehind : (data ++ (crlf ++ s)).drop (data.length + crlf.length) = s := by
    rw [← List.append_assoc, ← List.length_append, List.drop_left]
  have hcheck : data.length ≤ (data ++ (crlf ++ s)).length ∧
      crlf.isPrefixOf ((data ++ (crlf ++ s)).drop data.length) := by
    refine ⟨by simp, ?_⟩
    rw [List.drop_left, List.isPrefixOf_iff_prefix]
    exact List.prefix_append crlf s
  rw [hshape, readChunks, hline]
  simp only [Option.bind_eq_bind, Option.bind_some, chunkSize_numeral, hn]
  rw [← hn, if_pos hcheck, hbehind, List.take_left]
  cases readChunks fuel s <;> rfl

/-- Reading the end of a chunked body. -/
theorem readChunks_lastChunk (fuel : ℕ) (rest : List UInt8) :
    readChunks (fuel + 1) (lastChunk ++ rest) = some ([], rest) := by
  rfl

/-- A chunked body reads back with any fuel beyond the number of its chunks. -/
theorem readChunks_flatMap {chunks : List (List UInt8)} (hchunks : ∀ data ∈ chunks, data ≠ [])
    {fuel : ℕ} (hfuel : chunks.length < fuel) (rest : List UInt8) :
    readChunks fuel (chunks.flatMap chunkBytes ++ lastChunk ++ rest) =
      some (chunks.flatten, rest) := by
  obtain ⟨fuel, rfl⟩ := Nat.exists_eq_succ_of_ne_zero (Nat.ne_zero_of_lt hfuel)
  induction chunks generalizing fuel with
  | nil => exact readChunks_lastChunk fuel rest
  | cons data chunks ih =>
    have hlt : chunks.length < fuel := Nat.lt_of_succ_lt_succ hfuel
    obtain ⟨fuel, rfl⟩ := Nat.exists_eq_succ_of_ne_zero (Nat.ne_zero_of_lt hlt)
    have hrest := ih (fun d hd => hchunks d (List.mem_cons_of_mem _ hd)) fuel hlt
    rw [List.flatMap_cons, List.append_assoc, List.append_assoc, ← List.append_assoc _ lastChunk,
      readChunks_chunkBytes (hchunks data List.mem_cons_self), hrest]
    rfl

/-- Texts that are not empty take at least one byte each. -/
theorem length_le_flatMap {α : Type*} {text : α → List UInt8} (htext : ∀ a, text a ≠ [])
    (as : List α) : as.length ≤ (as.flatMap text).length := by
  induction as with
  | nil => exact Nat.le_refl _
  | cons a as ih =>
    have hpos : 0 < (text a).length := List.length_pos_iff.mpr (htext a)
    simp only [List.flatMap_cons, List.length_append, List.length_cons]
    omega

/-- **A chunked body reads back, and its end is found**: chunks that are not empty,
whatever they contain, and any bytes behind the last one. -/
theorem decodeChunked_flatMap {chunks : List (List UInt8)} (hchunks : ∀ data ∈ chunks, data ≠ [])
    (rest : List UInt8) : decodeChunked (chunks.flatMap chunkBytes ++ lastChunk ++ rest) =
      some (chunks.flatten, rest) := by
  apply readChunks_flatMap hchunks
  have hlength := length_le_flatMap
    (fun data : List UInt8 => (by simp [chunkBytes, crlf] : chunkBytes data ≠ [])) chunks
  simp only [List.length_append]
  omega

/-- A body that was read as empty leaves everything behind an empty line that stands
behind the chunk-size line. -/
theorem suffix_of_decodeChunked_nil {u v t rest : List UInt8}
    (h : decodeChunked (u ++ crlf ++ (v ++ crlf ++ crlf ++ t)) = some ([], rest)) :
    t <:+ rest := by
  rw [decodeChunked, readChunks] at h
  obtain ⟨⟨line, s⟩, hline, h⟩ := Option.bind_eq_some_iff.mp h
  obtain ⟨w, rfl⟩ := suffix_of_splitLine hline
  obtain ⟨size, hsize, h⟩ := Option.bind_eq_some_iff.mp h
  dsimp only at h
  split at h
  · obtain ⟨rest', hskip, heq⟩ := Option.bind_eq_some_iff.mp h
    obtain ⟨-, rfl⟩ := Prod.mk.injEq .. ▸ Option.some.inj heq
    apply suffix_of_skipFields (u := w ++ v)
    simpa using hskip
  · -- a chunk that is not empty makes a body that is not empty
    rename_i hne
    split at h
    · rename_i hcheck
      obtain ⟨⟨body, rest'⟩, -, heq⟩ := Option.bind_eq_some_iff.mp h
      have hnil := (Prod.mk.injEq .. ▸ Option.some.inj heq : _ ∧ _).1
      have htake := (List.append_eq_nil_iff.mp hnil).1
      have hlength := congrArg List.length htake
      rw [List.length_take, List.length_nil, min_eq_left hcheck.1] at hlength
      exact absurd hlength hne
    · cases h

/-! ## Responses -/

/-- What a client takes out of a response. -/
structure Response where
  status : ℕ
  body : List UInt8
deriving DecidableEq, Repr

/-- What a status line begins with. -/
def version : List UInt8 := "HTTP/1.1 ".toList.map fun c => c.toNat.toUInt8

/-- The status in a status line. -/
def statusCode (line : List UInt8) : Option ℕ :=
  if version.isPrefixOf line then
    numeralValue 10 ((line.drop version.length).takeWhile fun c => c ≠ 32)
  else none

/-- Read a response by the rule that one to a `HEAD` request and one with status 304 has no
body, and every other one has a chunked body. The field lines are passed without a look at
them: any line that is not empty is one, and `Transfer-Encoding` is taken for granted. -/
def readResponse (toHead : Bool) (s : List UInt8) : Option (Response × List UInt8) := do
  let (line, s) ← splitLine s
  let status ← statusCode line
  let s ← skipFields s
  if toHead ∨ status = 304 then
    return ({ status := status, body := [] }, s)
  else
    let (body, rest) ← decodeChunked s
    return ({ status := status, body := body }, rest)

/-- Read one response for each request, of which the client knows whether it was a
`HEAD`. -/
def readResponses : List Bool → List UInt8 → Option (List Response × List UInt8)
  | [], s => some ([], s)
  | toHead :: later, s => do
    let (r, s) ← readResponse toHead s
    let (rs, s) ← readResponses later s
    return (r :: rs, s)

/-- A status line as it is sent. -/
def statusLine (status : ℕ) : List UInt8 := version ++ numeral 10 status

theorem statusCode_statusLine (status : ℕ) : statusCode (statusLine status) = some status := by
  have hprefix : version.isPrefixOf (statusLine status) :=
    List.isPrefixOf_iff_prefix.mpr (List.prefix_append _ _)
  have hdigits : ∀ c ∈ numeral 10 status, decide (c ≠ 32) = true := by
    intro c hc
    have hsome := digitValue_isSome_of_mem_numeral (by decide) (by decide) hc
    rw [decide_eq_true_iff]
    rintro rfl
    exact absurd hsome (by decide)
  rw [statusCode, if_pos hprefix, statusLine, List.drop_left,
    List.takeWhile_eq_self_iff.mpr hdigits]
  exact numeralValue_numeral (by decide) (by decide) status

theorem not_crlf_infix_statusLine (status : ℕ) : ¬crlf <:+: statusLine status := by
  intro h
  have hmem : (13 : UInt8) ∈ version ++ numeral 10 status := h.subset (by decide)
  rcases List.mem_append.mp hmem with hmem | hmem
  · exact absurd hmem (by decide)
  · exact absurd (digitValue_isSome_of_mem_numeral (by decide) (by decide) hmem) (by decide)

/-- Reading a response behind its status line. -/
theorem readResponse_statusLine (toHead : Bool) (status : ℕ) (s : List UInt8) :
    readResponse toHead (statusLine status ++ crlf ++ s) =
      (skipFields s).bind fun s =>
        if toHead ∨ status = 304 then some ({ status := status, body := [] }, s)
        else (decodeChunked s).bind fun (body, rest) =>
          some ({ status := status, body := body }, rest) := by
  rw [readResponse, splitLine_crlf (not_crlf_infix_statusLine status)]
  show (statusCode (statusLine status)).bind _ = _
  rw [statusCode_statusLine]
  rfl

/-- Field lines one after the other are passed. -/
theorem skipFields_flatMap {fields : List (List UInt8)} (hfields : ∀ text ∈ fields, FieldLines text)
    (s : List UInt8) : skipFields (fields.flatMap (· ++ crlf) ++ s) = skipFields s := by
  induction fields with
  | nil => rfl
  | cons text fields ih =>
    rw [List.flatMap_cons, List.append_assoc, skipFields_lines (hfields text List.mem_cons_self)]
    exact ih fun t ht => hfields t (List.mem_cons_of_mem _ ht)

/-- **A response reads back**, and nothing of it is left over: field lines, and a chunked
body where the client expects one. -/
theorem readResponse_chunked {status : ℕ} {fields chunks : List (List UInt8)}
    (hstatus : status ≠ 304) (hfields : ∀ text ∈ fields, FieldLines text)
    (hchunks : ∀ data ∈ chunks, data ≠ []) (rest : List UInt8) :
    readResponse false (statusLine status ++ crlf ++ (fields.flatMap (· ++ crlf) ++
        (crlf ++ (chunks.flatMap chunkBytes ++ lastChunk ++ rest)))) =
      some ({ status := status, body := chunks.flatten }, rest) := by
  rw [readResponse_statusLine, skipFields_flatMap hfields, skipFields_crlf]
  show (if _ then _ else _) = _
  rw [if_neg (by simpa using hstatus), decodeChunked_flatMap hchunks]
  rfl

/-- Where the client expects no body, everything behind the header block is left over. -/
theorem suffix_of_readResponse_noBody {toHead : Bool} {status : ℕ} {u t rest : List UInt8}
    {r : Response} (hno : toHead ∨ status = 304)
    (h : readResponse toHead (statusLine status ++ crlf ++ (u ++ crlf ++ crlf ++ t)) =
      some (r, rest)) : t <:+ rest := by
  rw [readResponse_statusLine] at h
  obtain ⟨s, hskip, h⟩ := Option.bind_eq_some_iff.mp h
  rw [if_pos hno] at h
  obtain ⟨-, rfl⟩ := Prod.mk.injEq .. ▸ Option.some.inj h
  exact suffix_of_skipFields hskip

/-- An empty line inside the header block: a client that reads an empty body leaves what
stands behind the real end of the block. -/
theorem suffix_of_readResponse_emptyLine {status : ℕ} {u v w t rest : List UInt8} {r : Response}
    (hr : r.body = [])
    (h : readResponse false (statusLine status ++ crlf ++
      (u ++ crlf ++ crlf ++ (v ++ crlf ++ (w ++ crlf ++ crlf ++ t)))) = some (r, rest)) :
    t <:+ rest := by
  rw [readResponse_statusLine] at h
  obtain ⟨s, hskip, h⟩ := Option.bind_eq_some_iff.mp h
  obtain ⟨s', rfl⟩ := suffix_of_skipFields hskip
  split at h
  · obtain ⟨-, rfl⟩ := Prod.mk.injEq .. ▸ Option.some.inj h
    exact ⟨s' ++ v ++ crlf ++ w ++ crlf ++ crlf, by simp⟩
  · obtain ⟨⟨body, rest'⟩, hdecode, h⟩ := Option.bind_eq_some_iff.mp h
    obtain ⟨rfl, rfl⟩ := Prod.mk.injEq .. ▸ Option.some.inj h
    obtain rfl : body = [] := hr
    apply suffix_of_decodeChunked_nil (u := s' ++ v) (v := w)
    simpa using hdecode

/-! ## Responses on one connection -/

section Connection

variable {α : Type*} (toHead : α → Bool) (sent : α → List UInt8) (meant : α → Response)

/-- After every exchange the client has read exactly the responses that were meant, and
no byte is left over. -/
def InStep (xs : List α) : Prop :=
  ∀ n, readResponses ((xs.take n).map toHead) ((xs.take n).flatMap sent) =
    some ((xs.take n).map meant, [])

/-- The response of an exchange reads back, whatever is sent behind it. -/
def ReadsBack (x : α) : Prop :=
  ∀ rest, readResponse (toHead x) (sent x ++ rest) = some (meant x, rest)

variable {toHead sent meant}

/-- Responses that read back one by one read back one after the other. -/
theorem readResponses_flatMap {xs : List α} (hxs : ∀ x ∈ xs, ReadsBack toHead sent meant x)
    (more : List Bool) (rest : List UInt8) :
    readResponses (xs.map toHead ++ more) (xs.flatMap sent ++ rest) =
      (readResponses more rest).map fun (rs, rest) => (xs.map meant ++ rs, rest) := by
  induction xs with
  | nil =>
    show readResponses more rest = _
    cases readResponses more rest <;> rfl
  | cons x xs ih =>
    have hx := hxs x List.mem_cons_self (xs.flatMap sent ++ rest)
    have hrest := ih fun y hy => hxs y (List.mem_cons_of_mem _ hy)
    simp only [List.map_cons, List.cons_append, List.flatMap_cons, List.append_assoc,
      readResponses, Option.bind_eq_bind]
    rw [hx, Option.bind_some, hrest]
    cases readResponses more rest <;> rfl

/-- **Client and server stay in step** exactly if every response reads back, where one
that does not is already misread when it is the last one. -/
theorem inStep_iff {xs : List α}
    (hxs : ∀ x ∈ xs, readResponse (toHead x) (sent x) = some (meant x, []) →
      ReadsBack toHead sent meant x) :
    InStep toHead sent meant xs ↔ ∀ x ∈ xs, ReadsBack toHead sent meant x := by
  constructor
  · intro hstep
    -- one exchange more, behind exchanges that have read back
    have htake : ∀ n, ∀ x ∈ xs.take n, ReadsBack toHead sent meant x := by
      intro n
      induction n with
      | zero => exact fun x hx => absurd hx (by simp)
      | succ n ih =>
        intro x hx
        rw [List.take_add_one, List.mem_append] at hx
        rcases hx with hx | hx
        · exact ih x hx
        obtain ⟨hlt, rfl⟩ := List.getElem?_eq_some_iff.mp (Option.mem_toList.mp hx)
        apply hxs _ (List.getElem_mem hlt)
        have hread := hstep (n + 1)
        rw [List.take_add_one, List.getElem?_eq_getElem hlt, Option.toList_some, List.map_append,
          List.flatMap_append, List.map_append, readResponses_flatMap ih] at hread
        obtain ⟨⟨rs, rest⟩, hlast, heq⟩ := Option.map_eq_some_iff.mp hread
        obtain ⟨hrs, rfl⟩ := Prod.mk.injEq .. ▸ heq
        obtain ⟨⟨r, s⟩, hr, hnone⟩ := Option.bind_eq_some_iff.mp hlast
        obtain ⟨rfl, rfl⟩ := Prod.mk.injEq .. ▸ Option.some.inj hnone
        rw [List.flatMap_singleton] at hr
        obtain rfl : r = meant xs[n] := by simpa using hrs
        exact hr
    exact fun x hx => htake xs.length x (by rwa [List.take_length])
  · intro hback n
    have hread := readResponses_flatMap
      (fun x (hx : x ∈ xs.take n) => hback x (List.mem_of_mem_take hx)) [] []
    simpa [readResponses] using hread

end Connection

end NetworkServers.HttpMessage
