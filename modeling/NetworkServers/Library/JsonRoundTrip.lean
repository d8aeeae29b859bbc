import NetworkServers.Library.JsonParsing

/-!
# Writing and Reading JSON

What `JSON.stringify` writes for a value, `JSON.parse` gives back, also out of its UTF-8
bytes. Of an array or an object no part of the bytes parses: the text is complete with its
closing bracket and not before.
-/

namespace NetworkServers.Js.Json

/-! ## Objects -/

/-- Different keys in the order in which they are enumerated. -/
def Enumerated (properties : List (JsString × Json)) : Prop :=
  properties.Pairwise fun p q => p.1 ≠ q.1 ∧ comesBefore q.1 p.1 = false

/-- Names that are no array indices are enumerated in any order. -/
theorem enumerated_of_names {properties : List (JsString × Json)}
    (hnodup : (properties.map Prod.fst).Nodup)
    (hnames : ∀ key ∈ properties.map Prod.fst, arrayIndex key = none) : Enumerated properties := by
  have hkeys := List.pairwise_map.mp (List.nodup_iff_pairwise_ne.mp hnodup)
  apply hkeys.imp_of_mem
  intro p q _ hq hne
  refine ⟨hne, ?_⟩
  rw [comesBefore, hnames q.1 (List.mem_map_of_mem hq)]

/-- A key that comes behind all others is added at the end. -/
theorem setProperty_last {properties : List (JsString × Json)} {key : JsString}
    (h : ∀ p ∈ properties, p.1 ≠ key ∧ comesBefore key p.1 = false) (v : Json) :
    setProperty key v properties = properties ++ [(key, v)] := by
  induction properties with
  | nil => rfl
  | cons p properties ih =>
    obtain ⟨⟨hne, hbefore⟩, hrest⟩ := List.forall_mem_cons.mp h
    rw [setProperty, if_neg hne, if_neg (by simp [hbefore]), ih hrest]
    rfl

/-- Setting the properties of an object in their order gives this object. -/
theorem ofProperties_eq {properties : List (JsString × Json)} (h : Enumerated properties) :
    ofProperties properties = properties := by
  induction properties using List.reverseRecOn with
  | nil => rfl
  | append_singleton properties p ih =>
    obtain ⟨hfront, -, hlast⟩ := List.pairwise_append.mp h
    have hstep : ofProperties (properties ++ [p]) =
        setProperty p.1 p.2 (ofProperties properties) := by
      rw [ofProperties, List.foldl_append]
      rfl
    rw [hstep, ih hfront, setProperty_last]
    exact fun q hq => hlast q hq p List.mem_cons_self

theorem getProperty_setProperty_self (properties : List (JsString × Json)) (key : JsString)
    (v : Json) : getProperty (setProperty key v properties) key = some v := by
  induction properties with
  | nil => simp [setProperty, getProperty]
  | cons p properties ih =>
    obtain ⟨other, w⟩ := p
    rw [setProperty]
    split
    · -- the value is replaced
      simp [getProperty]
    · rename_i hne
      split
      · -- the key is put in front
        simp [getProperty]
      · simpa [getProperty, hne] using ih

theorem getProperty_setProperty_ne (properties : List (JsString × Json)) {key key' : JsString}
    (h : key' ≠ key) (v : Json) :
    getProperty (setProperty key v properties) key' = getProperty properties key' := by
  induction properties with
  | nil => simp [setProperty, getProperty, h.symm]
  | cons p properties ih =>
    obtain ⟨other, w⟩ := p
    rw [setProperty]
    split
    · rename_i heq
      simp [getProperty, heq, h.symm]
    · split
      · simp [getProperty, h.symm]
      · by_cases hother : other = key'
        · simp [getProperty, hother]
        · simpa [getProperty, hother] using ih

theorem getProperty_removeProperty_self (properties : List (JsString × Json)) (key : JsString) :
    getProperty (removeProperty key properties) key = none := by
  rw [getProperty, Option.map_eq_none_iff, List.find?_eq_none]
  intro p hp
  simpa using (List.mem_filter.mp hp).2

theorem getProperty_removeProperty_ne (properties : List (JsString × Json)) {key key' : JsString}
    (h : key' ≠ key) :
    getProperty (removeProperty key properties) key' = getProperty properties key' := by
  induction properties with
  | nil => rfl
  | cons p properties ih =>
    obtain ⟨other, w⟩ := p
    by_cases hother : other = key
    · -- this is the property that goes
      subst hother
      have hskip : removeProperty other ((other, w) :: properties) =
          removeProperty other properties := by simp [removeProperty]
      rw [hskip, ih]
      simp [getProperty, h.symm]
    · have hkeep : removeProperty key ((other, w) :: properties) =
          (other, w) :: removeProperty key properties := by simp [removeProperty, hother]
      rw [hkeep]
      by_cases hfound : other = key'
      · simp [getProperty, hfound]
      · simpa [getProperty, hfound] using ih

/-- The value of a property that is there. -/
theorem getProperty_of_mem {properties : List (JsString × Json)} (h : Enumerated properties)
    {p : JsString × Json} (hp : p ∈ properties) : getProperty properties p.1 = some p.2 := by
  induction properties with
  | nil => exact absurd hp List.not_mem_nil
  | cons q properties ih =>
    obtain ⟨hfirst, hrest⟩ := List.pairwise_cons.mp h
    rcases List.mem_cons.mp hp with rfl | hp
    · simp [getProperty]
    · have hne : q.1 ≠ p.1 := (hfirst p hp).1
      simpa [getProperty, hne] using ih hrest hp

theorem Enumerated.removeProperty {properties : List (JsString × Json)} (h : Enumerated properties)
    (key : JsString) : Enumerated (removeProperty key properties) :=
  List.Pairwise.sublist List.filter_sublist h

/-- One key comes before another, and this one before a third. -/
theorem comesBefore_trans {a b c : JsString} (hab : comesBefore a b) (hbc : comesBefore b c) :
    comesBefore a c := by
  unfold comesBefore at *
  cases ha : arrayIndex a with
  | none => simp [ha] at hab
  | some i =>
    cases hb : arrayIndex b with
    | none => simp [hb] at hbc
    | some j =>
      cases hc : arrayIndex c with
      | none => rfl
      | some k =>
        simp only [ha, hb, hc, decide_eq_true_iff] at hab hbc ⊢
        exact hab.trans hbc

theorem comesBefore_irrefl (a : JsString) : comesBefore a a = false := by
  unfold comesBefore
  cases arrayIndex a with
  | none => rfl
  | some i => simp

/-- The keys of an object after a property has been set. -/
theorem mem_setProperty {properties : List (JsString × Json)} {key : JsString} {v : Json}
    {p : JsString × Json} (hp : p ∈ setProperty key v properties) :
    p = (key, v) ∨ p ∈ properties := by
  induction properties with
  | nil => exact .inl (List.mem_singleton.mp hp)
  | cons q properties ih =>
    obtain ⟨other, w⟩ := q
    rw [setProperty] at hp
    split at hp
    · exact (List.mem_cons.mp hp).imp_right (List.mem_cons_of_mem _)
    split at hp
    · exact List.mem_cons.mp hp
    · rcases List.mem_cons.mp hp with rfl | hp
      · exact .inr List.mem_cons_self
      · exact (ih hp).imp_right (List.mem_cons_of_mem _)

/-- Setting a property keeps the keys in their order. -/
theorem Enumerated.setProperty {properties : List (JsString × Json)} (h : Enumerated properties)
    (key : JsString) (v : Json) : Enumerated (setProperty key v properties) := by
  induction properties with
  | nil => exact List.pairwise_singleton _ _
  | cons q properties ih =>
    obtain ⟨other, w⟩ := q
    obtain ⟨hfirst, hrest⟩ := List.pairwise_cons.mp h
    rw [Json.setProperty]
    split
    · rename_i heq
      exact List.pairwise_cons.mpr ⟨fun p hp => heq ▸ hfirst p hp, hrest⟩
    · rename_i hne
      split
      · -- the new key comes before `other`, and none of the others does
        rename_i hbefore
        refine List.pairwise_cons.mpr ⟨fun p hp => ?_, h⟩
        rcases List.mem_cons.mp hp with rfl | hp
        · refine ⟨fun heq => hne heq.symm, ?_⟩
          by_contra hback
          have hloop := comesBefore_trans hbefore (by simpa using hback)
          rw [comesBefore_irrefl] at hloop
          cases hloop
        · obtain ⟨-, hlater⟩ := hfirst p hp
          refine ⟨fun heq => ?_, ?_⟩
          · rw [← heq, hbefore] at hlater
            cases hlater
          · by_contra hback
            rw [comesBefore_trans (by simpa using hback) hbefore] at hlater
            cases hlater
      · rename_i hbefore
        refine List.pairwise_cons.mpr ⟨fun p hp => ?_, ih hrest⟩
        rcases mem_setProperty hp with rfl | hp
        · exact ⟨hne, by simpa using hbefore⟩
        · exact hfirst p hp

/-! ## Strings -/

/-- What an escape stands for. -/
theorem unescape_of_mem_escapes :
    ∀ pair ∈ escapes, unescape pair.2 = some pair.1 ∧ pair.2 ≠ 117 :=
  List.all_iff_forall_prop.mp (by decide)

theorem mem_escapes {c letter : UInt16} (h : escapes.lookup c = some letter) :
    (c, letter) ∈ escapes := by
  obtain ⟨before, after, heq, -⟩ := List.lookup_eq_some_iff.mp h
  rw [heq]
  exact List.mem_append_right _ List.mem_cons_self

theorem hexValue_hexDigit : ∀ n < 16, hexValue (hexDigit n) = some n := by decide

/-- Four digits give back the code unit. -/
theorem readString_unicodeEscape (c : UInt16) (s : JsString) :
    readString (unicodeEscape c ++ s) = (readString s).map fun r => (c :: r.1, r.2) := by
  have hlt := c.toNat_lt
  apply readString_unicode
  rw [hexUnit, hexValue_hexDigit _ (by omega), hexValue_hexDigit _ (by omega),
    hexValue_hexDigit _ (by omega), hexValue_hexDigit _ (by omega)]
  have hvalue : ((c.toNat / 0x1000 * 16 + c.toNat / 0x100 % 0x10) * 16 + c.toNat / 0x10 % 0x10) *
      16 + c.toNat % 0x10 = c.toNat := by omega
  show some (((c.toNat / 0x1000 * 16 + c.toNat / 0x100 % 0x10) * 16 + c.toNat / 0x10 % 0x10) *
      16 + c.toNat % 0x10).toUInt16 = some c
  rw [hvalue]
  exact congrArg some UInt16.ofNat_toNat

/-- **A code unit** reads back. -/
theorem readString_quoteUnit (c : UInt16) (s : JsString) :
    readString (quoteUnit c ++ s) = (readString s).map fun r => (c :: r.1, r.2) := by
  unfold quoteUnit
  split
  · rename_i letter hlookup
    obtain ⟨hunescape, hletter⟩ := unescape_of_mem_escapes _ (mem_escapes hlookup)
    exact readString_letter hletter hunescape s
  · rename_i hlookup
    split
    · exact readString_unicodeEscape c s
    · rename_i hplain
      simp only [Bool.or_eq_true, decide_eq_true_iff, not_or] at hplain
      have hescapes := List.lookup_eq_none_iff.mp hlookup
      apply readString_plain
      · rintro rfl
        exact absurd (hescapes (34, 34) (by decide)) (by decide)
      · rintro rfl
        exact absurd (hescapes (92, 92) (by decide)) (by decide)
      · exact hplain.1.1

/-- A surrogate is written as it is if it has its partner. -/
theorem readString_surrogate {c : UInt16} (hc : isLead c ∨ isTrail c) (s : JsString) :
    readString (c :: s) = (readString s).map fun r => (c :: r.1, r.2) := by
  have hge : 0xD800 ≤ c := by
    simp only [isLead, isTrail, Bool.and_eq_true, decide_eq_true_iff] at hc
    grind
  apply readString_plain
  · rintro rfl
    exact absurd hge (by decide)
  · rintro rfl
    exact absurd hge (by decide)
  · grind

/-- **Strings** read back. -/
theorem readString_quoteUnits (s rest : JsString) :
    readString (quoteUnits s ++ 34 :: rest) = some (s, rest) := by
  fun_induction quoteUnits s with
  | case1 => exact readString_quote rest
  | case2 c =>
    rw [readString_quoteUnit, readString_quote]
    rfl
  | case3 c d s hpair ih =>
    rw [Bool.and_eq_true] at hpair
    rw [List.cons_append, List.cons_append, readString_surrogate (.inl hpair.1),
      readString_surrogate (.inr hpair.2), ih]
    rfl
  | case4 c d s hpair ih =>
    rw [List.append_assoc, readString_quoteUnit, ih]
    rfl

theorem isWellFormed_quoteUnit (c : UInt16) : IsWellFormed (quoteUnit c) := by
  unfold quoteUnit
  split
  · rename_i letter hlookup
    have hletters : ∀ pair ∈ escapes, pair.2 < 0x80 := List.all_iff_forall_prop.mp (by decide)
    apply isWellFormed_ascii
    rw [List.forall_mem_cons, List.forall_mem_singleton]
    exact ⟨by decide, hletters _ (mem_escapes hlookup)⟩
  · split
    · have hlt := c.toNat_lt
      apply isWellFormed_ascii
      simp only [unicodeEscape, List.forall_mem_cons]
      exact ⟨by decide, by decide, (hexDigit_range _ (by omega)).2, (hexDigit_range _ (by omega)).2,
        (hexDigit_range _ (by omega)).2, (hexDigit_range _ (by omega)).2,
        fun _ h => absurd h List.not_mem_nil⟩
    · rename_i hplain
      apply isWellFormed_singleton
      simp only [isLead, isTrail, Bool.or_eq_true, Bool.and_eq_true, decide_eq_true_iff, not_or,
        not_and] at hplain
      have hlead : 0xD800 ≤ c.toNat → ¬c.toNat ≤ 0xDBFF := hplain.1.2
      have htrail : 0xDC00 ≤ c.toNat → ¬c.toNat ≤ 0xDFFF := hplain.2
      have hlt := c.toNat_lt
      unfold IsScalar
      omega

/-- Strings are written without lone surrogates. -/
theorem isWellFormed_quoteUnits (s : JsString) : IsWellFormed (quoteUnits s) := by
  fun_induction quoteUnits s with
  | case1 => exact isWellFormed_nil
  | case2 c => exact isWellFormed_quoteUnit c
  | case3 c d s hpair ih =>
    simp only [isLead, isTrail, Bool.and_eq_true, decide_eq_true_iff] at hpair
    exact (isWellFormed_pair hpair.1 hpair.2).append ih
  | case4 c d s hpair ih => exact (isWellFormed_quoteUnit c).append ih

theorem isWellFormed_quote (s : JsString) : IsWellFormed (quote s) := by
  have hascii : IsScalar (34 : UInt16).toNat := by decide
  exact (((isWellFormed_quoteUnits s).append (isWellFormed_singleton hascii))).cons hascii

/-! ## Values -/

/-- A value as programs have it: numbers are numerals, and the properties of an object have
different keys, in the order in which they are enumerated. -/
inductive Valid : Json → Prop where
  | null : Valid .null
  | bool (b : Bool) : Valid (.bool b)
  | number {numeral : JsString} (h : isNumeral numeral) : Valid (.number numeral)
  | string (text : JsString) : Valid (.string text)
  | array {elements : List Json} (h : ∀ v ∈ elements, Valid v) : Valid (.array elements)
  | object {properties : List (JsString × Json)} (horder : Enumerated properties)
      (h : ∀ p ∈ properties, Valid p.2) : Valid (.object properties)

/-- A value is read where its text stands, if no numeral goes on behind it. -/
def ReadsBack (v : Json) : Prop :=
  ∀ rest, (IsNumber v → ∀ c, rest.head? = some c → isNumberChar c = false) →
    Reads (.value v) (v.stringify ++ rest) rest

/-- A value that another token follows. -/
theorem ReadsBack.before {v : Json} (h : ReadsBack v) {c : UInt16} (hc : isNumberChar c = false)
    (rest : JsString) : Reads (.value v) (v.stringify ++ c :: rest) (c :: rest) := by
  apply h
  intro _ d hd
  exact Option.some.inj hd ▸ hc

/-- Elements of an array, up to its end. -/
theorem reads_elements {vs : List Json} (h : ∀ v ∈ vs, ReadsBack v) (hne : vs ≠ [])
    (rest : JsString) :
    Reads (.elements vs) (stringifyElements vs ++ 93 :: rest) rest := by
  induction vs with
  | nil => exact absurd rfl hne
  | cons v vs ih =>
    obtain ⟨hv, hvs⟩ := List.forall_mem_cons.mp h
    cases vs with
    | nil => exact .lastElement (hv.before (by decide) rest) (expect_cons (by decide) rest)
    | cons w vs =>
      rw [stringifyElements, List.append_assoc]
      · exact .element (hv.before (by decide) _) (expect_cons (by decide) _)
          (ih hvs (List.cons_ne_nil _ _))
      · exact List.cons_ne_nil _ _

/-- A property, up to what stands behind it. -/
theorem readString_key (key s : JsString) :
    ∃ s₁ s₂, expect 34 (quote key ++ 58 :: s) = some s₁ ∧ readString s₁ = some (key, s₂) ∧
      expect 58 s₂ = some s := by
  refine ⟨quoteUnits key ++ 34 :: 58 :: s, 58 :: s, ?_, readString_quoteUnits _ _,
    expect_cons (by decide) s⟩
  rw [quote, List.cons_append, List.append_assoc]
  exact expect_cons (by decide) _

/-- Properties of an object, up to its end. -/
theorem reads_properties {ps : List (JsString × Json)} (h : ∀ p ∈ ps, ReadsBack p.2)
    (hne : ps ≠ []) (rest : JsString) :
    Reads (.properties ps) (stringifyProperties ps ++ 125 :: rest) rest := by
  induction ps with
  | nil => exact absurd rfl hne
  | cons p ps ih =>
    obtain ⟨key, v⟩ := p
    obtain ⟨hv, hps⟩ := List.forall_mem_cons.mp h
    cases ps with
    | nil =>
      rw [stringifyProperties, List.append_assoc, List.cons_append]
      obtain ⟨s₁, s₂, hopen, hkey, hcolon⟩ := readString_key key (v.stringify ++ 125 :: rest)
      exact .lastProperty hopen hkey hcolon (hv.before (by decide) rest)
        (expect_cons (by decide) rest)
    | cons q ps =>
      rw [stringifyProperties, List.append_assoc, List.cons_append, List.append_assoc]
      · obtain ⟨s₁, s₂, hopen, hkey, hcolon⟩ := readString_key key
          (v.stringify ++ 44 :: (stringifyProperties (q :: ps) ++ 125 :: rest))
        exact .property hopen hkey hcolon (hv.before (by decide) _) (expect_cons (by decide) _)
          (ih hps (List.cons_ne_nil _ _))
      · exact List.cons_ne_nil _ _

/-- **What is written is read.** -/
theorem Valid.readsBack {v : Json} (h : Valid v) : ReadsBack v := by
  induction h with
  | null =>
    intro rest _
    exact .atom (readAtom_null rest)
  | bool b =>
    intro rest _
    cases b with
    | true => exact .atom (readAtom_true rest)
    | false => exact .atom (readAtom_false rest)
  | @number numeral hnumeral =>
    intro rest hrest
    apply Reads.atom
    -- a numeral does not begin with white space
    obtain ⟨c, tail, rfl⟩ := List.exists_cons_of_ne_nil (ne_nil_of_isNumeral hnumeral)
    have hspace : isSpace c = false := by
      have hc := isNumberChar_of_isNumeral hnumeral c List.mem_cons_self
      by_contra hspace
      simp only [isSpace, Bool.not_eq_false, Bool.or_eq_true, decide_eq_true_iff] at hspace
      rcases hspace with ((rfl | rfl) | rfl) | rfl <;> exact absurd hc (by decide)
    rw [stringify, List.cons_append, skipSpace_of_not_space hspace]
    exact readAtom_number hnumeral (hrest trivial)
  | string text =>
    intro rest _
    rw [stringify, quote, List.cons_append, List.append_assoc]
    exact .string (expect_cons (by decide) _) (readString_quoteUnits text rest)
  | @array vs _ ih =>
    intro rest _
    rw [stringify, List.cons_append, List.append_assoc]
    -- without elements the closing bracket is next
    by_cases hvs : vs = []
    · subst hvs
      exact .emptyArray (expect_cons (by decide) _) (expect_cons (by decide) rest)
    · exact .array (expect_cons (by decide) _) (reads_elements ih hvs rest)
  | @object ps horder _ ih =>
    intro rest _
    rw [stringify, List.cons_append, List.append_assoc]
    by_cases hps : ps = []
    · subst hps
      exact .emptyObject (expect_cons (by decide) _) (expect_cons (by decide) rest)
    · -- the properties are written in the order in which setting them leaves them
      have hreads := Reads.object (expect_cons (by decide) _) (reads_properties ih hps rest)
      rwa [ofProperties_eq horder] at hreads

/-- A value's text begins with the value. -/
theorem Valid.reads_stringify {v : Json} (h : Valid v) : Reads (.value v) v.stringify [] := by
  have hreads := h.readsBack [] fun _ c hc => by cases hc
  rwa [List.append_nil] at hreads

/-- **`JSON.parse` undoes `JSON.stringify`.** -/
theorem parse_stringify {v : Json} (h : Valid v) : parse v.stringify = some v :=
  parse_eq_some_iff.mpr ⟨[], h.reads_stringify, rfl⟩

/-! ## Natural numbers -/

/-- The numeral of a natural number. -/
def decimal (n : ℕ) : JsString := (Nat.toDigits 10 n).map fun c => c.toNat.toUInt16

theorem toUInt16_digit {c : Char} (hc : c.isDigit) :
    isDigit c.toNat.toUInt16 ∧ c.toNat.toUInt16.toNat = c.toNat := by
  simp only [Char.isDigit, Bool.and_eq_true, decide_eq_true_iff] at hc
  have hlow : 48 ≤ c.toNat := hc.1
  have hhigh : c.toNat ≤ 57 := hc.2
  have htoNat : c.toNat.toUInt16.toNat = c.toNat := UInt16.toNat_ofNat_of_lt' (by show _ < 0x10000; omega)
  simp only [isDigit, Bool.and_eq_true, decide_eq_true_iff, UInt16.le_iff_toNat_le, htoNat]
  exact ⟨⟨hlow, hhigh⟩, trivial⟩

theorem isDigit_of_mem_decimal {n : ℕ} {c : UInt16} (hc : c ∈ decimal n) : isDigit c := by
  obtain ⟨d, hd, rfl⟩ := List.mem_map.mp hc
  exact (toUInt16_digit (Nat.isDigit_of_mem_toDigits (by decide) (by decide) hd)).1

/-- A number reads back from its digits. -/
theorem digitsValue_decimal (n : ℕ) : digitsValue (decimal n) = n := by
  have hfold : ∀ (digits : List Char) (value : ℕ), (∀ d ∈ digits, d.isDigit) →
      (digits.map fun c => c.toNat.toUInt16).foldl (fun n c => 10 * n + (c.toNat - 48)) value =
        Nat.ofDigitChars 10 digits value := by
    intro digits
    induction digits with
    | nil => exact fun _ _ => rfl
    | cons d digits ih =>
      intro value hdigits
      obtain ⟨hd, hdigits⟩ := List.forall_mem_cons.mp hdigits
      rw [List.map_cons, List.foldl_cons, ih _ hdigits, (toUInt16_digit hd).2]
      rfl
  rw [digitsValue, decimal, hfold _ _ fun d hd =>
    Nat.isDigit_of_mem_toDigits (by decide) (by decide) hd]
  exact Nat.ofDigitChars_ten_toDigits

/-- Only zero has a zero in front. -/
theorem head?_decimal {n : ℕ} (hn : n ≠ 0) : (decimal n).head? ≠ some 48 := by
  induction n using Nat.strong_induction_on with
  | _ n ih =>
    rcases Nat.lt_or_ge n 10 with hlt | hge
    · have hdigits : ∀ m < 10, m ≠ 0 → (m.digitChar.toNat.toUInt16 : UInt16) ≠ 48 := by decide
      rw [decimal, Nat.toDigits_of_lt_base hlt]
      exact fun h => hdigits n hlt hn (Option.some.inj h)
    · have hquotient := ih (n / 10) (by omega) (by omega)
      have hne : decimal (n / 10) ≠ [] := by simp [decimal, Nat.toDigits_ne_nil]
      have happend : decimal n = decimal (n / 10) ++ [(n % 10).digitChar.toNat.toUInt16] := by
        rw [decimal, Nat.toDigits_of_base_le (by decide) hge, List.map_append]
        rfl
      rw [happend, List.head?_append_of_ne_nil _ hne]
      exact hquotient

/-- The digits of a natural number are a JSON number. -/
theorem isNumeral_decimal (n : ℕ) : isNumeral (decimal n) := by
  have hdigit : ∀ c ∈ decimal n, isDigit c := fun c hc => isDigit_of_mem_decimal hc
  have hne : decimal n ≠ [] := by simp [decimal, Nat.toDigits_ne_nil]
  -- no sign, and a zero in front only for zero itself
  have hsign : (decimal n).head? ≠ some 45 := by
    intro h
    exact absurd (hdigit 45 (List.mem_of_mem_head? h)) (by decide)
  have hzero : (decimal n).head? ≠ some 48 ∨ decimal n = [48] := by
    by_cases hn : n = 0
    · exact .inr (by rw [hn]; decide)
    · exact .inl (head?_decimal hn)
  rw [isNumeral, if_neg hsign, isUnsigned, List.takeWhile_eq_self_iff.mpr hdigit,
    List.dropWhile_eq_nil_iff.mpr hdigit]
  simp only [Bool.and_eq_true, List.all_eq_true, decide_eq_true_iff, Bool.or_eq_true, ne_eq]
  refine ⟨fun c hc => ?_, ⟨hne, hzero⟩, rfl⟩
  rw [isNumberChar, hdigit c hc]
  rfl

/-! ## Bytes -/

theorem isWellFormed_stringifyElements {vs : List Json}
    (h : ∀ v ∈ vs, IsWellFormed v.stringify) : IsWellFormed (stringifyElements vs) := by
  induction vs with
  | nil => exact isWellFormed_nil
  | cons v vs ih =>
    obtain ⟨hv, hvs⟩ := List.forall_mem_cons.mp h
    cases vs with
    | nil => exact hv
    | cons w vs =>
      rw [stringifyElements]
      · exact hv.append ((ih hvs).cons (by decide))
      · exact List.cons_ne_nil _ _

theorem isWellFormed_stringifyProperties {ps : List (JsString × Json)}
    (h : ∀ p ∈ ps, IsWellFormed p.2.stringify) : IsWellFormed (stringifyProperties ps) := by
  induction ps with
  | nil => exact isWellFormed_nil
  | cons p ps ih =>
    obtain ⟨key, v⟩ := p
    obtain ⟨hv, hps⟩ := List.forall_mem_cons.mp h
    cases ps with
    | nil => exact (isWellFormed_quote key).append (IsWellFormed.cons (by decide) hv)
    | cons q ps =>
      rw [stringifyProperties]
      · exact (isWellFormed_quote key).append
          (IsWellFormed.cons (by decide) (hv.append ((ih hps).cons (by decide))))
      · exact List.cons_ne_nil _ _

/-- What `JSON.stringify` writes has no lone surrogates. -/
theorem Valid.isWellFormed_stringify {v : Json} (h : Valid v) : IsWellFormed v.stringify := by
  induction h with
  | null => exact isWellFormed_ascii (List.all_iff_forall_prop.mp (by decide))
  | bool b =>
    cases b with
    | true => exact isWellFormed_ascii (List.all_iff_forall_prop.mp (by decide))
    | false => exact isWellFormed_ascii (List.all_iff_forall_prop.mp (by decide))
  | number hnumeral =>
    apply isWellFormed_ascii
    intro c hc
    apply lt_of_isAtomChar
    rw [isAtomChar, isNumberChar_of_isNumeral hnumeral c hc, Bool.true_or]
  | string text => exact isWellFormed_quote text
  | array _ ih =>
    rw [stringify]
    exact ((isWellFormed_stringifyElements ih).append
      (isWellFormed_singleton (by decide))).cons (by decide)
  | object _ _ ih =>
    rw [stringify]
    exact ((isWellFormed_stringifyProperties ih).append
      (isWellFormed_singleton (by decide))).cons (by decide)

/-- A value comes back out of the bytes of its text. -/
theorem parse_utf8Decode {v : Json} (h : Valid v) :
    parse (utf8Decode (utf8Encode v.stringify)) = some v := by
  rw [utf8Decode_utf8Encode h.isWellFormed_stringify, parse_stringify h]

/-- An array or an object. -/
def IsCompound : Json → Prop
  | .array _ => True
  | .object _ => True
  | _ => False

theorem IsCompound.not_isNumber {v : Json} (h : IsCompound v) : ¬IsNumber v := by
  cases v with
  | number => exact absurd h id
  | null | bool | string | array | object => exact id

/-- Where a bracket or a brace is read, there is an array or an object. -/
theorem Reads.isCompound {v : Json} {c : UInt16} {s rest : JsString}
    (h : Reads (.value v) (c :: s) rest) (hc : c = 91 ∨ c = 123) : IsCompound v := by
  have hspace : isSpace c = false := by
    rcases hc with rfl | rfl <;> decide
  generalize hitem : Item.value v = item at h
  generalize htext : c :: s = text at h
  cases h with
  | string hopen =>
    rw [← htext, expect_eq_some_iff, skipSpace_of_not_space hspace] at hopen
    obtain ⟨rfl, -⟩ := List.cons.inj hopen
    exact absurd hc (by decide)
  | atom hread =>
    obtain ⟨atom, hs, hne, hatom⟩ := readAtom_ends hread
    obtain ⟨d, tail, rfl⟩ := List.exists_cons_of_ne_nil hne
    rw [← htext, skipSpace_of_not_space hspace] at hs
    obtain ⟨rfl, -⟩ := List.cons.inj hs
    have hd := hatom c List.mem_cons_self
    rcases hc with rfl | rfl <;> exact absurd hd (by decide)
  | emptyArray | array | emptyObject | object =>
    obtain rfl := Item.value.inj hitem
    trivial
  | lastElement | element | lastProperty | property => cases hitem

theorem stringify_compound {v : Json} (h : IsCompound v) :
    ∃ c s, v.stringify = c :: s ∧ (c = 91 ∨ c = 123) := by
  cases v with
  | array vs => exact ⟨91, _, rfl, .inl rfl⟩
  | object ps => exact ⟨123, _, rfl, .inr rfl⟩
  | null | bool | number | string => exact absurd h id

/-- **Parts do not parse**: of the bytes of an array or an object, only all of them are the
text of a value. -/
theorem parse_part {v : Json} (h : Valid v) (hcompound : IsCompound v) {xs ys : List UInt8}
    (hbytes : utf8Encode v.stringify = xs ++ ys) (hys : ys ≠ []) :
    parse (utf8Decode xs) = none := by
  obtain ⟨text, more, hwhole, hmore, hpart⟩ := utf8Decode_part xs ys
  rw [← hbytes, utf8Decode_utf8Encode h.isWellFormed_stringify] at hwhole
  by_contra hparse
  obtain ⟨v', hparse⟩ := Option.ne_none_iff_exists'.mp hparse
  obtain ⟨rest, hreads, hrest⟩ := parse_eq_some_iff.mp hparse
  rcases hpart with hpart | hpart
  · -- the value that was read goes on to be read in the whole text, with more behind it
    rw [hpart] at hreads
    obtain ⟨c, s, hstart, hc⟩ := stringify_compound hcompound
    cases text with
    | nil => exact absurd hreads.behind.length_lt (Nat.not_lt_zero _)
    | cons d text =>
      rw [hstart] at hwhole
      obtain ⟨rfl, -⟩ := List.cons.inj hwhole
      have hnumber : ∀ w, Item.value v' = .value w → IsNumber w → rest ≠ [] := by
        intro w hw hnumber
        obtain rfl := Item.value.inj hw
        exact absurd hnumber (hreads.isCompound hc).not_isNumber
      have hwider := hreads.append hnumber more
      rw [← hwhole, ← hstart] at hwider
      have hnothing := (hwider.unique h.reads_stringify).2
      exact hmore hys (List.append_eq_nil_iff.mp hnothing).2
  · -- a replacement character is no end of a value
    obtain ⟨d, hd, pre, hpre⟩ := hreads.behind
    rw [hpart] at hpre
    have hlast : ∀ e ∈ (d :: rest), e < 0x80 := by
      rw [List.forall_mem_cons]
      refine ⟨hd, fun e he => ?_⟩
      have hspace : isSpace e := by
        have hall := List.dropWhile_eq_nil_iff.mp hrest
        exact hall e he
      simp only [isSpace, Bool.or_eq_true, decide_eq_true_iff] at hspace
      rcases hspace with ((rfl | rfl) | rfl) | rfl <;> decide
    have hmem : (0xFFFD : UInt16) ∈ d :: rest := by
      have hsuffix : [0xFFFD] <:+ d :: rest := by
        refine List.suffix_of_suffix_length_le ⟨text, rfl⟩ ⟨pre, hpre⟩ ?_
        simp
      exact hsuffix.subset List.mem_cons_self
    exact absurd (hlast _ hmem) (by decide)

end NetworkServers.Js.Json
