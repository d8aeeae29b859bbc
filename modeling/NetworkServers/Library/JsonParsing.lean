import NetworkServers.Library.Json

/-!
# Parsing JSON

`Reads` is the grammar of JSON with one rule for each way in which the parser succeeds. A
text that the grammar reads is one that the parser reads with enough fuel, which
`parse` has. Reading looks at nothing behind the value, except that a numeral ends where its
characters do.
-/

namespace NetworkServers.Js.Json

/-! ## Texts behind tokens -/

/-- `rest` stands behind an ASCII character of `s`. -/
def Behind (s rest : JsString) : Prop := ∃ d : UInt16, d < 0x80 ∧ (d :: rest) <:+ s

theorem Behind.trans {s t rest : JsString} (h : Behind s t) (h' : Behind t rest) :
    Behind s rest := by
  obtain ⟨d, -, hsuffix⟩ := h
  obtain ⟨d', hd', hsuffix'⟩ := h'
  exact ⟨d', hd', hsuffix'.trans ((List.suffix_cons d t).trans hsuffix)⟩

theorem Behind.length_lt {s rest : JsString} (h : Behind s rest) : rest.length < s.length := by
  obtain ⟨d, -, hsuffix⟩ := h
  exact hsuffix.length_le

/-! ## Tokens -/

theorem skipSpace_append {s t : JsString} (h : skipSpace s ≠ []) :
    skipSpace (s ++ t) = skipSpace s ++ t := by
  unfold skipSpace at h ⊢
  rw [List.dropWhile_append, if_neg (by simpa using h)]

theorem skipSpace_of_not_space {c : UInt16} (hc : isSpace c = false) (s : JsString) :
    skipSpace (c :: s) = c :: s := by
  rw [skipSpace, List.dropWhile_cons, if_neg (by simp [hc])]

theorem expect_eq_some_iff {c : UInt16} {s rest : JsString} :
    expect c s = some rest ↔ skipSpace s = c :: rest := by
  unfold expect
  cases skipSpace s with
  | nil => simp
  | cons d t => simp

theorem expect_cons {c : UInt16} (hc : isSpace c = false) (s : JsString) :
    expect c (c :: s) = some s :=
  expect_eq_some_iff.mpr (skipSpace_of_not_space hc s)

/-- The next token is one character only. -/
theorem expect_ne {c d : UInt16} {s rest : JsString} (h : expect c s = some rest) (hne : c ≠ d) :
    expect d s = none := by
  rw [expect_eq_some_iff] at h
  simp [expect, h, hne]

theorem expect_append {c : UInt16} {s rest : JsString} (h : expect c s = some rest)
    (t : JsString) : expect c (s ++ t) = some (rest ++ t) := by
  rw [expect_eq_some_iff] at h ⊢
  rw [skipSpace_append (by simp [h]), h]
  rfl

/-- The token stands in front of the text behind it. -/
theorem expect_behind {c : UInt16} {s rest : JsString} (h : expect c s = some rest)
    (hc : c < 0x80) : Behind s rest := by
  rw [expect_eq_some_iff] at h
  exact ⟨c, hc, h ▸ List.dropWhile_suffix isSpace⟩

theorem ne_nil_of_expect {c : UInt16} {s rest : JsString} (h : expect c s = some rest) :
    s ≠ [] := by
  rintro rfl
  cases h

/-! ## Strings -/

/-- The closing quote. -/
theorem readString_quote (s : JsString) : readString (34 :: s) = some ([], s) := by
  rw [readString.eq_def]
  exact if_pos rfl

theorem readString_plain {c : UInt16} (hquote : c ≠ 34) (hbackslash : c ≠ 92) (hcontrol : ¬c < 32)
    (s : JsString) : readString (c :: s) = (readString s).map fun r => (c :: r.1, r.2) := by
  rw [readString.eq_def]
  simp only [if_neg hquote, if_neg hbackslash, if_neg hcontrol]

/-- An escape with a letter. -/
theorem readString_letter {letter c : UInt16} (hletter : letter ≠ 117)
    (hc : unescape letter = some c) (s : JsString) :
    readString (92 :: letter :: s) = (readString s).map fun r => (c :: r.1, r.2) := by
  rw [readString.eq_def]
  simp only [if_neg (by decide : (92 : UInt16) ≠ 34), if_true, if_neg hletter, hc]

/-- An escape with four digits. -/
theorem readString_unicode {h₁ h₂ h₃ h₄ c : UInt16} (hc : hexUnit h₁ h₂ h₃ h₄ = some c)
    (s : JsString) : readString (92 :: 117 :: h₁ :: h₂ :: h₃ :: h₄ :: s) =
      (readString s).map fun r => (c :: r.1, r.2) := by
  rw [readString.eq_def]
  simp only [if_neg (by decide : (92 : UInt16) ≠ 34), if_true, hc]

/-- The ways in which a string is read: what the first character or escape stands for goes to
the front of the rest. -/
theorem readString_cases {s text rest : JsString} (h : readString s = some (text, rest)) :
    (text = [] ∧ s = 34 :: rest) ∨
      ∃ pre c text' s', s = pre ++ s' ∧ pre ≠ [] ∧ text = c :: text' ∧
        readString s' = some (text', rest) ∧
        ∀ t, readString (pre ++ t) = (readString t).map fun r => (c :: r.1, r.2) := by
  have hmap : ∀ {c : UInt16} {s : JsString},
      ((readString s).map fun r => (c :: r.1, r.2)) = some (text, rest) →
      ∃ text', text = c :: text' ∧ readString s = some (text', rest) := by
    intro c s h
    obtain ⟨⟨text', rest'⟩, hread, heq⟩ := Option.map_eq_some_iff.mp h
    obtain ⟨rfl, rfl⟩ := Prod.mk.inj heq
    exact ⟨text', rfl, hread⟩
  rw [readString.eq_def] at h
  cases s with
  | nil => cases h
  | cons c s =>
    dsimp only at h
    split at h
    · rename_i hc
      simp only [Option.some.injEq, Prod.mk.injEq] at h
      exact .inl ⟨h.1.symm, by rw [hc, h.2]⟩
    right
    split at h
    · -- an escape
      rename_i _ hc
      cases s with
      | nil => cases h
      | cons letter s =>
        dsimp only at h
        split at h
        · rename_i hletter
          split at h
          · rename_i h₁ h₂ h₃ h₄ s
            split at h
            · rename_i c' hunit
              obtain ⟨text', htext, hread⟩ := hmap h
              refine ⟨[92, 117, h₁, h₂, h₃, h₄], c', text', s, by rw [hc, hletter]; rfl, by simp,
                htext, hread, readString_unicode hunit⟩
            · cases h
          · cases h
        · rename_i hletter
          split at h
          · rename_i c' hunit
            obtain ⟨text', htext, hread⟩ := hmap h
            exact ⟨[92, letter], c', text', s, by rw [hc]; rfl, by simp, htext, hread,
              readString_letter hletter hunit⟩
          · cases h
    · rename_i hquote hbackslash
      split at h
      · cases h
      · rename_i hcontrol
        obtain ⟨text', htext, hread⟩ := hmap h
        exact ⟨[c], c, text', s, rfl, by simp, htext, hread, readString_plain hquote hbackslash hcontrol⟩

/-- The closing quote stands in front of what follows a string. -/
theorem readString_behind {s text rest : JsString} (h : readString s = some (text, rest)) :
    Behind s rest := by
  refine ⟨34, by decide, ?_⟩
  induction text generalizing s with
  | nil =>
    rcases readString_cases h with ⟨-, rfl⟩ | ⟨_, _, _, _, -, -, htext, -⟩
    · exact List.suffix_refl _
    · cases htext
  | cons c text ih =>
    rcases readString_cases h with ⟨htext, -⟩ | ⟨pre, c', text', s', hs, -, htext, hread, -⟩
    · cases htext
    · obtain ⟨-, rfl⟩ := List.cons.inj htext
      exact (ih hread).trans ⟨pre, hs.symm⟩

/-- What stands behind a key and its colon. -/
theorem key_behind {s s₁ s₂ s₃ key : JsString} (hopen : expect 34 s = some s₁)
    (hkey : readString s₁ = some (key, s₂)) (hcolon : expect 58 s₂ = some s₃) : Behind s s₃ :=
  ((expect_behind hopen (by decide)).trans (readString_behind hkey)).trans
    (expect_behind hcolon (by decide))

/-- Reading a string looks at nothing behind it. -/
theorem readString_append {s text rest : JsString} (h : readString s = some (text, rest))
    (t : JsString) : readString (s ++ t) = some (text, rest ++ t) := by
  induction text generalizing s with
  | nil =>
    rcases readString_cases h with ⟨-, hs⟩ | ⟨_, _, _, _, -, -, htext, -⟩
    · rw [hs, List.cons_append, readString_quote]
    · cases htext
  | cons c text ih =>
    rcases readString_cases h with ⟨htext, -⟩ | ⟨pre, c', text', s', hs, -, htext, hread, hpre⟩
    · cases htext
    · obtain ⟨rfl, rfl⟩ := List.cons.inj htext
      rw [hs, List.append_assoc, hpre, ih hread]
      rfl

/-! ## Keywords and numbers -/

/-- A value whose text may go on with what stands behind it. -/
def IsNumber : Json → Prop
  | .number _ => True
  | _ => False

theorem readWord_eq_some_iff {word : JsString} {v v' : Json} {s rest : JsString} :
    readWord word v s = some (v', rest) ↔ s = word ++ rest ∧ v' = v := by
  unfold readWord
  split
  · rename_i hword
    obtain ⟨t, rfl⟩ := List.isPrefixOf_iff_prefix.mp hword
    rw [List.drop_left, Option.some.injEq, Prod.mk.injEq, List.append_cancel_left_eq]
    exact ⟨fun h => ⟨h.2, h.1.symm⟩, fun h => ⟨h.2.symm, h.1⟩⟩
  · rename_i hword
    refine ⟨fun h => (nomatch h), fun h => absurd ?_ hword⟩
    rw [h.1]
    exact List.isPrefixOf_iff_prefix.mpr (List.prefix_append _ _)

theorem ne_nil_of_isNumeral {s : JsString} (h : isNumeral s) : s ≠ [] := by
  rintro rfl
  exact absurd h (by decide)

theorem isNumberChar_of_isNumeral {s : JsString} (h : isNumeral s) : ∀ c ∈ s, isNumberChar c := by
  rw [isNumeral, Bool.and_eq_true] at h
  exact List.all_eq_true.mp h.1

/-- A number is read up to the end of its characters. -/
theorem readNumber_eq_some_iff {s rest : JsString} {v : Json} :
    readNumber s = some (v, rest) ↔ ∃ numeral, v = .number numeral ∧ isNumeral numeral ∧
      s = numeral ++ rest ∧ ∀ c, rest.head? = some c → isNumberChar c = false := by
  unfold readNumber
  constructor
  · intro h
    split at h
    · rename_i hnumeral
      simp only [Option.some.injEq, Prod.mk.injEq] at h
      obtain ⟨rfl, rfl⟩ := h
      refine ⟨_, rfl, hnumeral, List.takeWhile_append_dropWhile.symm, fun c hc => ?_⟩
      have hfirst := List.head?_dropWhile_not isNumberChar s
      rw [hc] at hfirst
      exact hfirst
    · cases h
  · rintro ⟨numeral, rfl, hnumeral, rfl, hrest⟩
    have hall := isNumberChar_of_isNumeral hnumeral
    have htake : (numeral ++ rest).takeWhile isNumberChar = numeral := by
      rw [List.takeWhile_append_of_pos hall]
      cases rest with
      | nil => simp
      | cons c rest => simp [hrest c rfl]
    have hdrop : (numeral ++ rest).dropWhile isNumberChar = rest := by
      rw [List.dropWhile_append_of_pos hall]
      cases rest with
      | nil => simp
      | cons c rest => simp [hrest c rfl]
    rw [htake, hdrop, if_pos hnumeral]

theorem readAtom_number {numeral rest : JsString} (hnumeral : isNumeral numeral)
    (hrest : ∀ c, rest.head? = some c → isNumberChar c = false) :
    readAtom (numeral ++ rest) = some (.number numeral, rest) := by
  obtain ⟨c, tail, rfl⟩ := List.exists_cons_of_ne_nil (ne_nil_of_isNumeral hnumeral)
  have hc := isNumberChar_of_isNumeral hnumeral c List.mem_cons_self
  -- no keyword begins with such a character
  have hne : ∀ d : UInt16, isNumberChar d = false → ((c :: tail) ++ rest).head? ≠ some d := by
    intro d hd hhead
    obtain rfl := Option.some.inj hhead
    rw [hc] at hd
    cases hd
  rw [readAtom, if_neg (hne _ (by decide)), if_neg (hne _ (by decide)), if_neg (hne _ (by decide))]
  exact readNumber_eq_some_iff.mpr ⟨_, rfl, hnumeral, rfl, hrest⟩

theorem readAtom_null (t : JsString) : readAtom (js "null" ++ t) = some (.null, t) := by
  have hhead : (js "null" ++ t).head? = some 110 := rfl
  rw [readAtom, hhead, if_pos rfl]
  exact readWord_eq_some_iff.mpr ⟨rfl, rfl⟩

theorem readAtom_true (t : JsString) : readAtom (js "true" ++ t) = some (.bool true, t) := by
  have hhead : (js "true" ++ t).head? = some 116 := rfl
  rw [readAtom, hhead, if_neg (by decide), if_pos rfl]
  exact readWord_eq_some_iff.mpr ⟨rfl, rfl⟩

theorem readAtom_false (t : JsString) : readAtom (js "false" ++ t) = some (.bool false, t) := by
  have hhead : (js "false" ++ t).head? = some 102 := rfl
  rw [readAtom, hhead, if_neg (by decide), if_neg (by decide), if_pos rfl]
  exact readWord_eq_some_iff.mpr ⟨rfl, rfl⟩

/-- The ways in which a keyword or a number is read. -/
theorem readAtom_cases {s rest : JsString} {v : Json} (h : readAtom s = some (v, rest)) :
    (∃ word ∈ [js "null", js "true", js "false"], s = word ++ rest ∧ ¬IsNumber v ∧
      ∀ t, readAtom (word ++ t) = some (v, t)) ∨
    ∃ numeral, v = .number numeral ∧ isNumeral numeral ∧ s = numeral ++ rest ∧
      ∀ c, rest.head? = some c → isNumberChar c = false := by
  unfold readAtom at h
  split at h
  · obtain ⟨hs, rfl⟩ := readWord_eq_some_iff.mp h
    exact .inl ⟨_, by simp, hs, id, readAtom_null⟩
  split at h
  · obtain ⟨hs, rfl⟩ := readWord_eq_some_iff.mp h
    exact .inl ⟨_, by simp, hs, id, readAtom_true⟩
  split at h
  · obtain ⟨hs, rfl⟩ := readWord_eq_some_iff.mp h
    exact .inl ⟨_, by simp, hs, id, readAtom_false⟩
  · exact .inr (readNumber_eq_some_iff.mp h)

/-- A keyword or a number, with more text behind it. -/
theorem readAtom_append {s rest : JsString} {v : Json} (h : readAtom s = some (v, rest))
    (hend : IsNumber v → rest ≠ []) (t : JsString) : readAtom (s ++ t) = some (v, rest ++ t) := by
  rcases readAtom_cases h with ⟨word, -, rfl, -, hword⟩ | ⟨numeral, rfl, hnumeral, rfl, hrest⟩
  · rw [List.append_assoc, hword]
  · obtain ⟨c, rest, rfl⟩ := List.exists_cons_of_ne_nil (hend trivial)
    rw [List.append_assoc]
    exact readAtom_number hnumeral fun d hd => hrest d hd

/-- The characters that keywords and numbers are made of. -/
def isAtomChar (c : UInt16) : Bool := isNumberChar c || (97 ≤ c && c ≤ 122)

theorem lt_of_isAtomChar {c : UInt16} (hc : isAtomChar c) : c < 0x80 := by
  simp only [isAtomChar, isNumberChar, isDigit, Bool.or_eq_true, Bool.and_eq_true,
    decide_eq_true_iff] at hc
  grind

theorem readAtom_ends {s rest : JsString} {v : Json} (h : readAtom s = some (v, rest)) :
    ∃ atom, s = atom ++ rest ∧ atom ≠ [] ∧ ∀ c ∈ atom, isAtomChar c := by
  rcases readAtom_cases h with ⟨word, hword, hs, -⟩ | ⟨numeral, -, hnumeral, hs, -⟩
  · refine ⟨word, hs, ?_⟩
    have hwords : ∀ w ∈ [js "null", js "true", js "false"], w ≠ [] ∧ w.all isAtomChar := by
      decide
    obtain ⟨hne, hall⟩ := hwords word hword
    exact ⟨hne, List.all_eq_true.mp hall⟩
  · refine ⟨numeral, hs, ne_nil_of_isNumeral hnumeral, fun c hc => ?_⟩
    rw [isAtomChar, isNumberChar_of_isNumeral hnumeral c hc, Bool.true_or]

/-! ## The grammar -/

/-- What a part of a text stands for. -/
inductive Item where
  | value (v : Json)
  | elements (vs : List Json)
  | properties (ps : List (JsString × Json))

/-- `Reads item s rest`: the text `s` begins with `item`, and `rest` stands behind it. -/
inductive Reads : Item → JsString → JsString → Prop where
  | string {s s₁ rest text : JsString} (hopen : expect 34 s = some s₁)
      (hread : readString s₁ = some (text, rest)) : Reads (.value (.string text)) s rest
  | atom {s rest : JsString} {v : Json} (hread : readAtom (skipSpace s) = some (v, rest)) :
      Reads (.value v) s rest
  | emptyArray {s s₁ rest : JsString} (hopen : expect 91 s = some s₁)
      (hclose : expect 93 s₁ = some rest) : Reads (.value (.array [])) s rest
  | array {s s₁ rest : JsString} {vs : List Json} (hopen : expect 91 s = some s₁)
      (helements : Reads (.elements vs) s₁ rest) : Reads (.value (.array vs)) s rest
  | emptyObject {s s₁ rest : JsString} (hopen : expect 123 s = some s₁)
      (hclose : expect 125 s₁ = some rest) : Reads (.value (.object [])) s rest
  | object {s s₁ rest : JsString} {ps : List (JsString × Json)} (hopen : expect 123 s = some s₁)
      (hproperties : Reads (.properties ps) s₁ rest) :
      Reads (.value (.object (ofProperties ps))) s rest
  | lastElement {s s₁ rest : JsString} {v : Json} (hvalue : Reads (.value v) s s₁)
      (hclose : expect 93 s₁ = some rest) : Reads (.elements [v]) s rest
  | element {s s₁ s₂ rest : JsString} {v : Json} {vs : List Json}
      (hvalue : Reads (.value v) s s₁) (hcomma : expect 44 s₁ = some s₂)
      (helements : Reads (.elements vs) s₂ rest) : Reads (.elements (v :: vs)) s rest
  | lastProperty {s s₁ s₂ s₃ s₄ rest key : JsString} {v : Json} (hopen : expect 34 s = some s₁)
      (hkey : readString s₁ = some (key, s₂)) (hcolon : expect 58 s₂ = some s₃)
      (hvalue : Reads (.value v) s₃ s₄) (hclose : expect 125 s₄ = some rest) :
      Reads (.properties [(key, v)]) s rest
  | property {s s₁ s₂ s₃ s₄ s₅ rest key : JsString} {v : Json} {ps : List (JsString × Json)}
      (hopen : expect 34 s = some s₁) (hkey : readString s₁ = some (key, s₂))
      (hcolon : expect 58 s₂ = some s₃) (hvalue : Reads (.value v) s₃ s₄)
      (hcomma : expect 44 s₄ = some s₅) (hproperties : Reads (.properties ps) s₅ rest) :
      Reads (.properties ((key, v) :: ps)) s rest

/-- The last character of an item is an ASCII character. -/
theorem Reads.behind {item : Item} {s rest : JsString} (h : Reads item s rest) :
    Behind s rest := by
  induction h with
  | string hopen hread => exact (expect_behind hopen (by decide)).trans (readString_behind hread)
  | @atom s rest v hread =>
    -- the last character of the keyword or the numeral
    obtain ⟨atom, hs, hne, hatom⟩ := readAtom_ends hread
    refine ⟨atom.getLast hne, lt_of_isAtomChar (hatom _ (List.getLast_mem hne)), ?_⟩
    refine List.IsSuffix.trans ⟨atom.dropLast, ?_⟩ (List.dropWhile_suffix isSpace)
    rw [← List.singleton_append, ← List.append_assoc, List.dropLast_append_getLast, ← hs]
    rfl
  | emptyArray hopen hclose | emptyObject hopen hclose =>
    exact (expect_behind hopen (by decide)).trans (expect_behind hclose (by decide))
  | array hopen _ ih | object hopen _ ih => exact (expect_behind hopen (by decide)).trans ih
  | lastElement _ hclose ih => exact ih.trans (expect_behind hclose (by decide))
  | element _ hcomma _ ih ih' => exact (ih.trans (expect_behind hcomma (by decide))).trans ih'
  | lastProperty hopen hkey hcolon _ hclose ih =>
    exact ((key_behind hopen hkey hcolon).trans ih).trans (expect_behind hclose (by decide))
  | property hopen hkey hcolon _ hcomma _ ih ih' =>
    exact (((key_behind hopen hkey hcolon).trans ih).trans
      (expect_behind hcomma (by decide))).trans ih'

/-- **What stands behind a text** does not change what is read, unless a numeral could go
on. -/
theorem Reads.append {item : Item} {s rest : JsString} (h : Reads item s rest)
    (hend : ∀ v, item = .value v → IsNumber v → rest ≠ []) (t : JsString) :
    Reads item (s ++ t) (rest ++ t) := by
  induction h with
  | string hopen hread => exact .string (expect_append hopen t) (readString_append hread t)
  | @atom s rest v hread =>
    -- white space at the end could go on behind it
    have hne : skipSpace s ≠ [] := fun hnil => by
      rw [hnil] at hread
      cases hread
    apply Reads.atom
    rw [skipSpace_append hne]
    exact readAtom_append hread (hend v rfl) t
  | emptyArray hopen hclose => exact .emptyArray (expect_append hopen t) (expect_append hclose t)
  | array hopen _ ih => exact .array (expect_append hopen t) (ih (fun _ h => nomatch h))
  | emptyObject hopen hclose =>
    exact .emptyObject (expect_append hopen t) (expect_append hclose t)
  | object hopen _ ih => exact .object (expect_append hopen t) (ih (fun _ h => nomatch h))
  -- behind a part, a comma or a bracket keeps a numeral from going on
  | lastElement _ hclose ih =>
    exact .lastElement (ih fun _ _ _ => ne_nil_of_expect hclose) (expect_append hclose t)
  | element _ hcomma _ ih ih' =>
    exact .element (ih fun _ _ _ => ne_nil_of_expect hcomma) (expect_append hcomma t)
      (ih' (fun _ h => nomatch h))
  | lastProperty hopen hkey hcolon _ hclose ih =>
    exact .lastProperty (expect_append hopen t) (readString_append hkey t) (expect_append hcolon t)
      (ih fun _ _ _ => ne_nil_of_expect hclose) (expect_append hclose t)
  | property hopen hkey hcolon _ hcomma _ ih ih' =>
    exact .property (expect_append hopen t) (readString_append hkey t) (expect_append hcolon t)
      (ih fun _ _ _ => ne_nil_of_expect hcomma) (expect_append hcomma t)
      (ih' (fun _ h => nomatch h))

/-- No value begins with a closing bracket. -/
theorem Reads.expect_bracket {item : Item} {s rest : JsString} (h : Reads item s rest)
    (hitem : ∀ ps, item ≠ .properties ps) : expect 93 s = none := by
  induction h with
  | string hopen => exact expect_ne hopen (by decide)
  | @atom s rest v hread =>
    obtain ⟨atom, hs, hne, hatom⟩ := readAtom_ends hread
    obtain ⟨c, tail, rfl⟩ := List.exists_cons_of_ne_nil hne
    have hc : c ≠ 93 := by
      rintro rfl
      exact absurd (hatom 93 List.mem_cons_self) (by decide)
    simp [expect, hs, hc]
  | emptyArray hopen | array hopen | emptyObject hopen | object hopen =>
    exact expect_ne hopen (by decide)
  | lastElement _ _ ih | element _ _ _ ih => exact ih (fun _ h => nomatch h)
  | lastProperty | property => exact absurd rfl (hitem _)

/-- Properties begin with a quote. -/
theorem Reads.expect_brace {ps : List (JsString × Json)} {s rest : JsString}
    (h : Reads (.properties ps) s rest) : expect 125 s = none := by
  cases h with
  | lastProperty hopen => exact expect_ne hopen (by decide)
  | property hopen => exact expect_ne hopen (by decide)

/-! ## The parser reads what the grammar reads -/

/-- What the parser gives for an item. -/
def Item.Parses (fuel : ℕ) (s rest : JsString) : Item → Prop
  | .value v => parseValue fuel s = some (v, rest)
  | .elements vs => parseElements fuel s = some (vs, rest)
  | .properties ps => parseProperties fuel s = some (ps, rest)

section Soundness

variable {fuel : ℕ} (ih : ∀ (item : Item) (s rest : JsString), item.Parses fuel s rest →
  Reads item s rest)

include ih

/-- A value that is parsed with one more unit of fuel. -/
theorem reads_value_of_parses {s rest : JsString} {v : Json}
    (h : parseValue (fuel + 1) s = some (v, rest)) : Reads (.value v) s rest := by
  rw [parseValue] at h
  split at h
  · cases h
  rename_i c s' hskip
  split at h
  · -- a string
    rename_i hc
    obtain ⟨⟨text, rest'⟩, hread, heq⟩ := Option.map_eq_some_iff.mp h
    obtain ⟨rfl, rfl⟩ := Prod.mk.inj heq
    exact .string (expect_eq_some_iff.mpr (hc ▸ hskip)) hread
  split at h
  · -- an array
    rename_i hc
    have hopen : expect 91 s = some s' := expect_eq_some_iff.mpr (hc ▸ hskip)
    split at h
    · rename_i hclose
      obtain ⟨rfl, rfl⟩ := Prod.mk.inj (Option.some.inj h)
      exact .emptyArray hopen hclose
    · obtain ⟨⟨vs, rest'⟩, helements, heq⟩ := Option.map_eq_some_iff.mp h
      obtain ⟨rfl, rfl⟩ := Prod.mk.inj heq
      exact .array hopen (ih (.elements vs) _ _ helements)
  split at h
  · -- an object
    rename_i hc
    have hopen : expect 123 s = some s' := expect_eq_some_iff.mpr (hc ▸ hskip)
    split at h
    · rename_i hclose
      obtain ⟨rfl, rfl⟩ := Prod.mk.inj (Option.some.inj h)
      exact .emptyObject hopen hclose
    · obtain ⟨⟨ps, rest'⟩, hproperties, heq⟩ := Option.map_eq_some_iff.mp h
      obtain ⟨rfl, rfl⟩ := Prod.mk.inj heq
      exact .object hopen (ih (.properties ps) _ _ hproperties)
  · exact .atom (hskip ▸ h)

theorem reads_elements_of_parses {s rest : JsString} {vs : List Json}
    (h : parseElements (fuel + 1) s = some (vs, rest)) : Reads (.elements vs) s rest := by
  rw [parseElements] at h
  obtain ⟨⟨v, s₁⟩, hvalue, h⟩ := Option.bind_eq_some_iff.mp h
  have hvalue' := ih (.value v) _ _ hvalue
  dsimp only at h
  split at h
  · rename_i s₂ hcomma
    obtain ⟨⟨vs', rest'⟩, helements, heq⟩ := Option.bind_eq_some_iff.mp h
    obtain ⟨rfl, rfl⟩ := Prod.mk.inj (Option.some.inj heq)
    exact .element hvalue' hcomma (ih (.elements vs') _ _ helements)
  · obtain ⟨s₂, hclose, heq⟩ := Option.bind_eq_some_iff.mp h
    obtain ⟨rfl, rfl⟩ := Prod.mk.inj (Option.some.inj heq)
    exact .lastElement hvalue' hclose

theorem reads_properties_of_parses {s rest : JsString} {ps : List (JsString × Json)}
    (h : parseProperties (fuel + 1) s = some (ps, rest)) : Reads (.properties ps) s rest := by
  rw [parseProperties] at h
  obtain ⟨s₁, hopen, h⟩ := Option.bind_eq_some_iff.mp h
  obtain ⟨⟨key, s₂⟩, hkey, h⟩ := Option.bind_eq_some_iff.mp h
  obtain ⟨s₃, hcolon, h⟩ := Option.bind_eq_some_iff.mp h
  obtain ⟨⟨v, s₄⟩, hvalue, h⟩ := Option.bind_eq_some_iff.mp h
  have hvalue' := ih (.value v) _ _ hvalue
  dsimp only at h
  split at h
  · rename_i s₅ hcomma
    obtain ⟨⟨ps', rest'⟩, hproperties, heq⟩ := Option.bind_eq_some_iff.mp h
    obtain ⟨rfl, rfl⟩ := Prod.mk.inj (Option.some.inj heq)
    exact .property hopen hkey hcolon hvalue' hcomma (ih (.properties ps') _ _ hproperties)
  · obtain ⟨s₅, hclose, heq⟩ := Option.bind_eq_some_iff.mp h
    obtain ⟨rfl, rfl⟩ := Prod.mk.inj (Option.some.inj heq)
    exact .lastProperty hopen hkey hcolon hvalue' hclose

end Soundness

/-- **Soundness**: what the parser gives, the grammar reads. -/
theorem reads_of_parses (fuel : ℕ) :
    ∀ (item : Item) (s rest : JsString), item.Parses fuel s rest → Reads item s rest := by
  induction fuel with
  | zero =>
    intro item s rest h
    cases item with
    | value v => cases h
    | elements vs => cases h
    | properties ps => cases h
  | succ fuel ih =>
    intro item s rest h
    cases item with
    | value v => exact reads_value_of_parses ih h
    | elements vs => exact reads_elements_of_parses ih h
    | properties ps => exact reads_properties_of_parses ih h

/-- **Completeness**: what the grammar reads, the parser gives, with two units of fuel for each
character. -/
theorem Reads.parses {item : Item} {s rest : JsString} (h : Reads item s rest) {fuel : ℕ}
    (hfuel : 2 * (s.length - rest.length) ≤ fuel) : item.Parses fuel s rest := by
  have hpositive := h.behind.length_lt
  obtain ⟨fuel, rfl⟩ := Nat.exists_eq_succ_of_ne_zero (by omega : fuel ≠ 0)
  -- each part is shorter than the whole by the brackets, commas and colons around it
  induction h generalizing fuel with
  | string hopen hread =>
    rw [expect_eq_some_iff] at hopen
    simp only [Item.Parses, parseValue, hopen, if_true, hread, Option.map_some]
  | @atom s rest v hread =>
    obtain ⟨atom, hs, hne, hatom⟩ := readAtom_ends hread
    obtain ⟨c, tail, rfl⟩ := List.exists_cons_of_ne_nil hne
    rw [List.cons_append] at hs
    have hc : ∀ d, isAtomChar d = false → c ≠ d := by
      rintro d hd rfl
      rw [hatom c List.mem_cons_self] at hd
      cases hd
    rw [hs] at hread
    simp only [Item.Parses, parseValue, hs, if_neg (hc 34 (by decide)),
      if_neg (hc 91 (by decide)), if_neg (hc 123 (by decide)), hread]
  | emptyArray hopen hclose =>
    rw [expect_eq_some_iff] at hopen
    simp only [Item.Parses, parseValue, hopen, if_neg (by decide : (91 : UInt16) ≠ 34), if_true,
      hclose]
  | @array s s₁ rest vs hopen helements ih =>
    have hfront := (expect_behind hopen (by decide)).length_lt
    have hlength := helements.behind.length_lt
    obtain ⟨fuel, rfl⟩ := Nat.exists_eq_succ_of_ne_zero (by omega : fuel ≠ 0)
    have hparses : parseElements (fuel + 1) s₁ = some (vs, rest) := ih hlength fuel (by omega)
    rw [expect_eq_some_iff] at hopen
    simp only [Item.Parses, parseValue, hopen, if_neg (by decide : (91 : UInt16) ≠ 34), if_true,
      helements.expect_bracket (fun _ h => nomatch h), hparses, Option.map_some]
  | emptyObject hopen hclose =>
    rw [expect_eq_some_iff] at hopen
    simp only [Item.Parses, parseValue, hopen, if_neg (by decide : (123 : UInt16) ≠ 34),
      if_neg (by decide : (123 : UInt16) ≠ 91), if_true, hclose]
  | @object s s₁ rest ps hopen hproperties ih =>
    have hfront := (expect_behind hopen (by decide)).length_lt
    have hlength := hproperties.behind.length_lt
    obtain ⟨fuel, rfl⟩ := Nat.exists_eq_succ_of_ne_zero (by omega : fuel ≠ 0)
    have hparses : parseProperties (fuel + 1) s₁ = some (ps, rest) := ih hlength fuel (by omega)
    rw [expect_eq_some_iff] at hopen
    simp only [Item.Parses, parseValue, hopen, if_neg (by decide : (123 : UInt16) ≠ 34),
      if_neg (by decide : (123 : UInt16) ≠ 91), if_true, hproperties.expect_brace, hparses,
      Option.map_some]
  | @lastElement s s₁ rest v hvalue hclose ih =>
    have hlength := hvalue.behind.length_lt
    have hback := (expect_behind hclose (by decide)).length_lt
    obtain ⟨fuel, rfl⟩ := Nat.exists_eq_succ_of_ne_zero (by omega : fuel ≠ 0)
    have hparses : parseValue (fuel + 1) s = some (v, s₁) := ih hlength fuel (by omega)
    rw [Item.Parses, parseElements, hparses]
    simp only [Option.bind_eq_bind, Option.bind_some, expect_ne hclose (by decide : (93 : UInt16) ≠ 44), hclose]
  | @element s s₁ s₂ rest v vs hvalue hcomma helements ih ih' =>
    have hlength := hvalue.behind.length_lt
    have hmiddle := (expect_behind hcomma (by decide)).length_lt
    have hlength' := helements.behind.length_lt
    obtain ⟨fuel, rfl⟩ := Nat.exists_eq_succ_of_ne_zero (by omega : fuel ≠ 0)
    have hparses : parseValue (fuel + 1) s = some (v, s₁) := ih hlength fuel (by omega)
    have hparses' : parseElements (fuel + 1) s₂ = some (vs, rest) := ih' hlength' fuel (by omega)
    rw [Item.Parses, parseElements, hparses]
    simp only [Option.bind_eq_bind, Option.bind_some, hcomma, hparses']
  | @lastProperty s s₁ s₂ s₃ s₄ rest key v hopen hkey hcolon hvalue hclose ih =>
    have hfront := (key_behind hopen hkey hcolon).length_lt
    have hlength := hvalue.behind.length_lt
    have hback := (expect_behind hclose (by decide)).length_lt
    obtain ⟨fuel, rfl⟩ := Nat.exists_eq_succ_of_ne_zero (by omega : fuel ≠ 0)
    have hparses : parseValue (fuel + 1) s₃ = some (v, s₄) := ih hlength fuel (by omega)
    rw [Item.Parses, parseProperties, hopen]
    simp only [Option.bind_eq_bind, Option.bind_some, hkey, hcolon, hparses,
      expect_ne hclose (by decide : (125 : UInt16) ≠ 44), hclose]
  | @property s s₁ s₂ s₃ s₄ s₅ rest key v ps hopen hkey hcolon hvalue hcomma hproperties ih ih' =>
    have hfront := (key_behind hopen hkey hcolon).length_lt
    have hlength := hvalue.behind.length_lt
    have hmiddle := (expect_behind hcomma (by decide)).length_lt
    have hlength' := hproperties.behind.length_lt
    obtain ⟨fuel, rfl⟩ := Nat.exists_eq_succ_of_ne_zero (by omega : fuel ≠ 0)
    have hparses : parseValue (fuel + 1) s₃ = some (v, s₄) := ih hlength fuel (by omega)
    have hparses' : parseProperties (fuel + 1) s₅ = some (ps, rest) := ih' hlength' fuel (by omega)
    rw [Item.Parses, parseProperties, hopen]
    simp only [Option.bind_eq_bind, Option.bind_some, hkey, hcolon, hparses, hcomma, hparses']

/-- The grammar reads one value only. -/
theorem Reads.unique {s rest rest' : JsString} {v v' : Json} (h : Reads (.value v) s rest)
    (h' : Reads (.value v') s rest') : v = v' ∧ rest = rest' := by
  have hparses : parseValue (2 * s.length) s = some (v, rest) := h.parses (by omega)
  have hparses' : parseValue (2 * s.length) s = some (v', rest') := h'.parses (by omega)
  exact Prod.mk.inj (Option.some.inj (hparses.symm.trans hparses'))

/-- **`JSON.parse`** gives a value of the grammar with nothing but white space behind it. -/
theorem parse_eq_some_iff {text : JsString} {v : Json} :
    parse text = some v ↔ ∃ rest, Reads (.value v) text rest ∧ skipSpace rest = [] := by
  unfold parse
  constructor
  · intro h
    obtain ⟨⟨v', rest⟩, hparses, h⟩ := Option.bind_eq_some_iff.mp h
    dsimp only at h
    split at h
    · rename_i hrest
      obtain rfl := Option.some.inj h
      exact ⟨rest, reads_of_parses _ (.value v') _ _ hparses, hrest⟩
    · cases h
  · rintro ⟨rest, hreads, hrest⟩
    have hparses : parseValue (2 * text.length) text = some (v, rest) := hreads.parses (by omega)
    rw [hparses]
    exact if_pos hrest

end NetworkServers.Js.Json
