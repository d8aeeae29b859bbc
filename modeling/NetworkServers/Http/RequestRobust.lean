import NetworkServers.Http.Request
import NetworkServers.Library.CutLine

/-!
# Malformed Requests

Which texts `request_parse` reads without a `NULL` pointer and without leaving its
buffer. The condition looks at the text as it was received. The parser's cuts matter
for it in one way only: the offset is moved by the length of a line from where the
search for the line began, so line ends in front of a line make it fall back into the
line, onto or in front of a cut.
-/

namespace NetworkServers.Http

open NetworkServers.CString NetworkServers.Machine

/-! ## Readable texts -/

/-- A blank line at a position. -/
def BlankAt (text : Memory) (offset : ℕ) : Prop :=
  text[offset]? = some 13 ∧ text[offset + 1]? = some 10

instance (text : Memory) (offset : ℕ) : Decidable (BlankAt text offset) :=
  inferInstanceAs (Decidable (_ ∧ _))

/-- What the text holds for a header search that begins at an offset. -/
inductive HeaderStep where
  /-- The header section ends. -/
  | stop
  /-- A header, and the offset from which the next one is searched. -/
  | next (offset : ℕ)
  /-- A header without a value, or nothing left in the buffer. -/
  | unreadable
deriving DecidableEq, Repr

/-- The header at or behind an offset. -/
def headerStep (text : Memory) (offset : ℕ) : HeaderStep :=
  let start := lineStart text offset
  let stop := lineStop text start
  let nameStop := firstStop (bytes ": ") text start
  let behind := offset + (stop - start) + 2
  if text[start]? = some 0 then .stop
  -- no name, no delimiter behind it, or nothing behind the delimiter
  else if stop ≤ nameStop + 1 then .unreadable
  else if text.length ≤ behind then .unreadable
  -- the offset has fallen back onto a cut, or a blank line follows
  else if behind = stop ∨ behind = nameStop ∨ BlankAt text behind then .stop
  -- the offset has fallen back in front of the cut behind the name
  else if behind < nameStop then .unreadable
  else .next behind

/-- A header section that ends after finitely many headers, all of them with a value. -/
inductive Readable (text : Memory) : ℕ → Prop where
  | stop {offset : ℕ} (h : headerStep text offset = .stop) : Readable text offset
  | next {offset behind : ℕ} (h : headerStep text offset = .next behind) :
      Readable text behind → Readable text offset

/-- The end of the second word of the start line is behind its start. -/
def secondWord (text : Memory) : ℕ :=
  tokenStart (bytes " ") text (firstStop (bytes " ") text (lineStart text 0))

/-- The end of the start line. -/
def startLineStop (text : Memory) : ℕ := lineStop text (lineStart text 0)

/-- The offset from which the first header is searched. -/
def headersOffset (text : Memory) : ℕ := startLineStop text - lineStart text 0 + 2

/-- The text with the start line and its first three words cut off behind. -/
def cutStartLine (text : Memory) : Memory :=
  let first := firstStop (bytes " ") text (lineStart text 0)
  let second := firstStop (bytes " ") text first
  let third := firstStop (bytes " ") text second
  (((text.set (startLineStop text) 0).set first 0).set second 0).set third 0

/-- **Readable request**: a start line of at least two words, not so long that the
buffer ends with it, and readable headers. -/
structure ReadableRequest (text : Memory) : Prop where
  words : secondWord text < startLineStop text
  inside : headersOffset text < text.length
  headers : Readable (cutStartLine text) (headersOffset text)

/-! ## The start line -/

theorem bytes_crlf_eq : bytes "\r\n" = lineEnds := rfl

theorem space_clean : ∀ c ∈ bytes " ", c ≠ 0 ∧ c ∉ lineEnds :=
  List.all_iff_forall_prop.mp (by decide)

theorem colon_clean : ∀ c ∈ bytes ": ", c ≠ 0 ∧ c ∉ lineEnds :=
  List.all_iff_forall_prop.mp (by decide)

theorem nil_clean : ∀ c ∈ ([] : List UInt8), c ≠ 0 ∧ c ∉ lineEnds :=
  fun _ hc => (List.not_mem_nil hc).elim

/-- The first line of a terminated text is cut off. -/
theorem cutLine_set {text : Memory} {p : ℕ} (hterm : Terminated text) (hp : p < text.length) :
    CutLine text (text.set (lineStop text p) 0) p (lineStop text p) := by
  have hlt : lineStop text p < text.length := hterm.next_lt (by simp) hp
  refine CutLine.of_lineStop hterm hp (fun i _ hi => List.getElem?_set_ne hi.symm) ?_
  exact List.getElem?_set_self hlt

/-- The start line, as the first `strtok` cuts it off. -/
theorem cutLine_startLine {text : Memory} (hterm : Terminated text) :
    CutLine text (text.set (startLineStop text) 0) (lineStart text 0) (startLineStop text) := by
  have hlen : text.length - 1 < text.length := (List.getElem?_eq_some_iff.mp hterm).1
  exact cutLine_set hterm (hterm.next_lt (by decide) (by omega))

theorem strtok_startLine {text : Memory} (hterm : Terminated text)
    (h0 : text[lineStart text 0]? ≠ some 0) :
    strtok (some 0) (bytes "\r\n") { mem := text, saved := none } =
      .ok (some (lineStart text 0), { mem := text.set (startLineStop text) 0
                                      saved := some (behind text (startLineStop text)) }) := by
  have hline := cutLine_startLine hterm
  have hlt : lineStart text 0 < text.length :=
    hline.le.trans_lt (List.getElem?_eq_some_iff.mp hline.ends.choose_spec.1).1
  have hget := List.getElem?_eq_getElem hlt
  exact strtok_some _ { mem := text, saved := none } hterm rfl hget fun hc =>
    h0 (hget.trans (congrArg some hc))

/-- A start line of two words is read: the parser goes on behind it, in the text whose
words are cut off. -/
theorem parseStartLine_ok {text : Memory} (hterm : Terminated text)
    (hwords : secondWord text < startLineStop text) :
    ∃ method path saved, parseStartLine { mem := text, saved := none } =
      .ok (method, path, headersOffset text, { mem := cutStartLine text, saved := saved }) := by
  have hline := cutLine_startLine hterm
  have htermCut := hterm.set (startLineStop text)
  have hfirst : tokenStart (bytes " ") text (lineStart text 0) < startLineStop text :=
    (le_fieldStop.trans le_tokenStart).trans_lt hwords
  have htok0 := strtok_startLine hterm fun h0 => by
    obtain ⟨c, hc, hne, -⟩ := hline.clean _ le_rfl (le_tokenStart.trans_lt hfirst)
    rw [h0, Option.some.injEq] at hc
    exact hne hc.symm
  obtain ⟨line, hread, hlength⟩ := hline.readString_length htermCut
  have hoffset : line.length + 2 = headersOffset text := by rw [hlength]; rfl
  -- the words are cut off one after the other
  obtain ⟨mem1, q1, htok1, hmem1, hterm1, hline1, hskip1⟩ :=
    hline.strtok_next (some (behind text (startLineStop text)))
      (s := some (lineStart text 0)) htermCut rfl space_clean hfirst
  have hsecond : tokenStart (bytes " ") text q1 < startLineStop text := by
    rw [hskip1]
    exact hwords
  obtain ⟨mem2, q2, htok2, hmem2, hterm2, hline2, hskip2⟩ :=
    hline1.strtok_next (some q1) (s := none) hterm1 rfl space_clean hsecond
  obtain ⟨third, saved, htok3⟩ :=
    hline2.strtok_last (some q2) (s := none) hterm2 rfl space_clean
  -- the first two of them are strings in what is left of the text
  have hcut : mem2.set (firstStop (bytes " ") text q2) 0 = cutStartLine text := by
    simp only [hmem2, hmem1, firstStop, hskip2, hskip1, cutStartLine]
  have hterm3 : Terminated (cutStartLine text) := hcut ▸ hterm2.set _
  have hlength3 : (cutStartLine text).length = text.length := by simp [cutStartLine]
  have hin : startLineStop text < text.length :=
    (List.getElem?_eq_some_iff.mp hline.ends.choose_spec.1).1
  obtain ⟨method, hread1⟩ : ∃ method, readString (cutStartLine text)
      (some (tokenStart (bytes " ") text (lineStart text 0))) = .ok method :=
    ⟨_, readString_ok hterm3 (by omega)⟩
  obtain ⟨path, hread2⟩ : ∃ path, readString (cutStartLine text)
      (some (tokenStart (bytes " ") text q1)) = .ok path :=
    ⟨_, readString_ok hterm3 (by omega)⟩
  refine ⟨method, path, saved, ?_⟩
  simp only [parseStartLine, htok0, ok_bind, hread, htok1, htok2, htok3, hcut, hread1, hread2,
    hoffset]
  rfl

/-- A start line of fewer than two words faults. -/
theorem parseStartLine_error {text : Memory} (hterm : Terminated text)
    (hwords : ¬secondWord text < startLineStop text) :
    ∃ fault, parseStartLine { mem := text, saved := none } = .error fault := by
  have hline := cutLine_startLine hterm
  have htermCut := hterm.set (startLineStop text)
  by_cases h0 : text[lineStart text 0]? = some 0
  · -- nothing but line ends: `strlen(NULL)`
    have htok0 := strtok_none (bytes "\r\n") { mem := text, saved := none } (s := some 0)
      (p := 0) rfl h0
    exact ⟨.nullPointer, by simp only [parseStartLine, htok0, ok_bind]; rfl⟩
  have htok0 := strtok_startLine hterm h0
  obtain ⟨line, hread, -⟩ := hline.readString_length htermCut
  rcases (hline.tokenStart_eq space_clean).2.lt_or_eq with hfirst | hfirst
  · -- one word: `strdup(NULL)` for the path
    obtain ⟨mem1, q1, htok1, hmem1, hterm1, hline1, hskip1⟩ :=
      hline.strtok_next (some (behind text (startLineStop text)))
        (s := some (lineStart text 0)) htermCut rfl space_clean hfirst
    have hsecond : tokenStart (bytes " ") text q1 = startLineStop text :=
      le_antisymm (hline1.tokenStart_eq space_clean).2 (hskip1 ▸ not_lt.mp hwords)
    have htok2 := hline1.strtok_none (some q1) (s := none) rfl space_clean hsecond
    have htok3 := (hline1.mono hline1.le le_rfl).strtok_end
      (some (startLineStop text)) (s := none) rfl space_clean rfl
    simp only [parseStartLine, htok0, ok_bind, hread, htok1, htok2, htok3]
    rcases readString mem1 (some (tokenStart (bytes " ") text (lineStart text 0))) with e | method
    · exact ⟨e, rfl⟩
    · exact ⟨.nullPointer, rfl⟩
  · -- no word: `strdup(NULL)` for the method
    have htok1 := hline.strtok_none (some (behind text (startLineStop text)))
      (s := some (lineStart text 0)) rfl space_clean hfirst
    have htok2 := (hline.mono hline.le le_rfl).strtok_end
      (some (startLineStop text)) (s := none) rfl space_clean rfl
    exact ⟨.nullPointer, by simp only [parseStartLine, htok0, ok_bind, hread, htok1, htok2]; rfl⟩

/-! ## One header -/

/-- What the header loop may assume about its buffer: from the offset on it holds the
text, except that the line that the offset has fallen back into may be cut off. -/
structure Agrees (text mem : Memory) (offset : ℕ) : Prop where
  length : mem.length = text.length
  term : Terminated mem
  same : ∀ i, offset ≤ i → mem[i]? = text[i]? ∨
    (mem[i]? = some 0 ∧ offset < i ∧ i = lineStop text offset)

theorem Agrees.refl {text : Memory} (hterm : Terminated text) (offset : ℕ) :
    Agrees text text offset where
  length := rfl
  term := hterm
  same := fun _ _ => .inl rfl

section Line

variable {text mem : Memory} {offset : ℕ}

/-- A line that the offset is on already. -/
theorem lineStart_self (h : offset < lineStop text offset) : lineStart text offset = offset := by
  obtain ⟨c, hc, hfalse⟩ := next_before le_rfl h
  simp only [decide_eq_false_iff_not, not_or] at hfalse
  exact next_self hc (by simpa using hfalse.2)

/-- The search for a line meets the text. -/
theorem Agrees.line (h : Agrees text mem offset) (hterm : Terminated text)
    (hlt : offset < text.length) :
    tokenStart lineEnds mem offset = lineStart text offset ∧
      mem[lineStart text offset]? = text[lineStart text offset]? ∧
      tokenStop lineEnds mem (lineStart text offset) = lineStop text (lineStart text offset) ∧
      ∀ i, offset ≤ i → i ≠ lineStop text (lineStart text offset) → mem[i]? = text[i]? := by
  by_cases hall : ∀ i, offset ≤ i → mem[i]? = text[i]?
  · have hstart : lineStart text offset < text.length := hterm.next_lt (by decide) hlt
    have hstop : lineStop text (lineStart text offset) < text.length :=
      hterm.next_lt (by simp) hstart
    have hget := List.getElem?_eq_getElem hstart
    have hget' := List.getElem?_eq_getElem hstop
    have h1 := next_at hget
    have h2 := next_at hget'
    refine ⟨next_congr (fun i hi _ => hall i hi) ⟨_, (hall _ le_tokenStart).trans hget, h1⟩,
      hall _ le_tokenStart, next_congr (fun i hi _ => hall i (le_tokenStart.trans hi))
        ⟨_, (hall _ (le_tokenStart.trans le_next)).trans hget', h2⟩, fun i hi _ => hall i hi⟩
  · -- the offset is inside a line that is cut off
    push Not at hall
    obtain ⟨stop, hle, hne⟩ := hall
    obtain ⟨h0, hin, hstop⟩ := (h.same stop hle).resolve_left hne
    have hstart : lineStart text offset = offset := lineStart_self (hstop ▸ hin)
    have hothers : ∀ i, offset ≤ i → i ≠ lineStop text offset → mem[i]? = text[i]? :=
      fun i hi hne => (h.same i hi).resolve_right fun hcut => hne hcut.2.2
    have hoffset := hothers offset le_rfl (hstop ▸ hin.ne)
    obtain ⟨c, hc, hfalse⟩ := next_before le_rfl (hstop ▸ hin : offset < lineStop text offset)
    simp only [decide_eq_false_iff_not, not_or] at hfalse
    rw [hstart]
    refine ⟨next_self (hoffset.trans hc) (by simpa using hfalse.2), hoffset, ?_, hothers⟩
    exact next_congr (fun i hi hlt => hothers i hi hlt.ne)
      ⟨0, (hstop ▸ h0 : mem[lineStop text offset]? = some 0), by simp⟩

/-- The header loop ends where nothing but line ends is left. -/
theorem parseHeaders_end (h : Agrees text mem offset) (hterm : Terminated text)
    (hlt : offset < text.length) (hend : text[lineStart text offset]? = some 0) (fuel : ℕ)
    (headers : Headers) (saved : Option ℕ) :
    parseHeaders (fuel + 1) offset headers { mem := mem, saved := saved } =
      .ok (offset, headers, { mem := mem, saved := some (lineStart text offset) }) := by
  obtain ⟨hstart, hget, -, -⟩ := h.line hterm hlt
  have htok := strtok_none lineEnds { mem := mem, saved := saved } (s := some offset)
    (p := offset) rfl (by rw [hstart, hget, hend])
  simp only [parseHeaders, bytes_crlf_eq, htok, ok_bind, hstart]
  rfl

/-- Otherwise the loop's body gets the line, cut off from the rest. -/
theorem parseHeaders_line (h : Agrees text mem offset) (hterm : Terminated text)
    (hlt : offset < text.length) (hne : text[lineStart text offset]? ≠ some 0) (fuel : ℕ)
    (headers : Headers) (saved : Option ℕ) :
    ∃ saved', CutLine text (mem.set (lineStop text (lineStart text offset)) 0)
        (lineStart text offset) (lineStop text (lineStart text offset)) ∧
      parseHeaders (fuel + 1) offset headers { mem := mem, saved := saved } =
        (parseHeader (lineStart text offset)
          (offset + (lineStop text (lineStart text offset) - lineStart text offset) + 2) headers
          { mem := mem.set (lineStop text (lineStart text offset)) 0, saved := saved' } >>=
        fun (goOn, offset, headers, st) =>
          if goOn then parseHeaders fuel offset headers st else .ok (offset, headers, st)) := by
  obtain ⟨hstart, hget, hstop, hsame⟩ := h.line hterm hlt
  have hin : lineStart text offset < text.length := hterm.next_lt (by decide) hlt
  have hstopIn : lineStop text (lineStart text offset) < text.length := hterm.next_lt (by simp) hin
  have hline : CutLine text (mem.set (lineStop text (lineStart text offset)) 0)
      (lineStart text offset) (lineStop text (lineStart text offset)) := by
    refine CutLine.of_lineStop hterm hin (fun i hi hne => ?_) ?_
    · rw [List.getElem?_set_ne hne.symm]
      exact hsame i (le_tokenStart.trans hi) hne
    · exact List.getElem?_set_self (by rw [h.length]; exact hstopIn)
  obtain ⟨c, hc⟩ : ∃ c, text[lineStart text offset]? = some c := ⟨_, List.getElem?_eq_getElem hin⟩
  have hc0 : c ≠ 0 := fun h0 => hne (by rw [hc, h0])
  have htok := strtok_some lineEnds { mem := mem, saved := saved } (s := some offset)
    (p := offset) (c := c) h.term rfl (by rw [hstart, hget, hc]) hc0
  obtain ⟨line, hread, hlength⟩ := hline.readString_length (h.term.set _)
  refine ⟨some (behind mem (lineStop text (lineStart text offset))), hline, ?_⟩
  -- the line is not empty, as its first byte is not a NUL
  have hpos : lineStart text offset < lineStop text (lineStart text offset) := by
    refine lt_of_le_of_ne le_next fun heq => ?_
    have hat := next_at (heq ▸ hc : text[lineStop text (lineStart text offset)]? = some c)
    have hnot := next_at hc
    simp only [decide_eq_true_eq] at hat hnot
    exact hat.elim hc0 hnot
  simp only [parseHeaders, bytes_crlf_eq, htok, ok_bind, hstart, hstop, hread]
  rw [if_neg (by omega), hlength]
  rfl

end Line

section Value

variable {text mem : Memory} {start stop : ℕ}

/-- A line without a name, or with nothing behind its name: `value` is `NULL`. -/
theorem parseHeader_error (hline : CutLine text mem start stop) (hterm : Terminated mem)
    (hvalue : stop ≤ firstStop (bytes ": ") text start + 1) (offset : ℕ) (headers : Headers)
    (saved : Option ℕ) :
    ∃ fault, parseHeader start offset headers { mem := mem, saved := saved } = .error fault := by
  refine ⟨.nullPointer, ?_⟩
  rcases (hline.tokenStart_eq colon_clean).2.lt_or_eq with hlt | heq
  · have htok := hline.strtok_some saved (s := some start) hterm rfl colon_clean hlt
    have hle : firstStop (bytes ": ") text start ≤ stop :=
      ((hline.mono le_tokenStart hlt.le).tokenStop_eq _).2
    have hrest := hline.set hle (le_tokenStart.trans le_fieldStop)
    have htok' := hrest.strtok_end (some (min (firstStop (bytes ": ") text start + 1) stop))
      (s := none) rfl nil_clean
      (Nat.min_eq_right hvalue)
    simp only [parseHeader, htok, ok_bind, htok']
    rfl
  · have htok := hline.strtok_none saved (s := some start) rfl colon_clean heq
    have htok' := (hline.mono hline.le le_rfl).strtok_end (some stop)
      (s := none) rfl nil_clean rfl
    simp only [parseHeader, htok, ok_bind, htok']
    rfl

/-- A line with a value: the name is cut off, and the bytes behind the line are looked
at. -/
theorem parseHeader_value (hline : CutLine text mem start stop) (hterm : Terminated mem)
    (hvalue : firstStop (bytes ": ") text start + 1 < stop) (offset : ℕ) (headers : Headers)
    (saved : Option ℕ) :
    ∃ headers' saved', parseHeader start offset headers { mem := mem, saved := saved } =
      (startsWithCrlf ((mem.set (firstStop (bytes ": ") text start) 0).set stop 0) offset >>=
        fun blank => .ok (!blank, if blank then offset + 2 else offset, headers',
          { mem := (mem.set (firstStop (bytes ": ") text start) 0).set stop 0
            saved := saved' })) := by
  have hname : tokenStart (bytes ": ") text start < stop :=
    le_fieldStop.trans_lt ((Nat.lt_succ_self _).trans hvalue)
  have htok := hline.strtok_some saved (s := some start) hterm rfl colon_clean hname
  have hrest := hline.set (t := firstStop (bytes ": ") text start) (by omega)
    (le_tokenStart.trans le_fieldStop)
  have hq : min (firstStop (bytes ": ") text start + 1) stop =
      firstStop (bytes ": ") text start + 1 := Nat.min_eq_left hvalue.le
  rw [hq] at hrest
  have hterm' := hterm.set (firstStop (bytes ": ") text start)
  -- without delimiters the rest of the line is one token
  obtain ⟨c, hc, h0, -⟩ := hrest.clean _ le_rfl hvalue
  have hself : tokenStart [] text (firstStop (bytes ": ") text start + 1) =
      firstStop (bytes ": ") text start + 1 := next_self hc (by simp)
  have hstop : firstStop [] text (firstStop (bytes ": ") text start + 1) = stop :=
    (congrArg (fieldStop [] text) hself).trans hrest.fieldStop_nil
  have htok' := hrest.strtok_some (some (firstStop (bytes ": ") text start + 1))
    (s := none) hterm' rfl nil_clean (hself.symm ▸ hvalue)
  rw [hstop, hself] at htok'
  have hlen : stop < mem.length := (List.getElem?_eq_some_iff.mp hline.cut).1
  have hterm'' := hterm'.set stop
  obtain ⟨first, hfirst⟩ : ∃ first,
      readByte ((mem.set (firstStop (bytes ": ") text start) 0).set stop 0)
        (some (firstStop (bytes ": ") text start + 1)) = .ok first :=
    readByte_ok (by simp; omega)
  obtain ⟨value, hread⟩ : ∃ value,
      readString ((mem.set (firstStop (bytes ": ") text start) 0).set stop 0)
        (if first = 32 then (some (firstStop (bytes ": ") text start + 1)).map (· + 1)
          else some (firstStop (bytes ": ") text start + 1)) = .ok value := by
    split
    · exact ⟨_, readString_ok hterm'' (by simp; omega)⟩
    · exact ⟨_, readString_ok hterm'' (by simp; omega)⟩
  obtain ⟨name, hreadName⟩ : ∃ name,
      readString ((mem.set (firstStop (bytes ": ") text start) 0).set stop 0)
        (some (tokenStart (bytes ": ") text start)) = .ok name :=
    ⟨_, readString_ok hterm'' (by simp; omega)⟩
  refine ⟨headersSet headers (some name) (some value), some (min (stop + 1) stop), ?_⟩
  simp only [parseHeader, htok, hq, htok', hfirst, hread, hreadName, ok_bind, Functor.map,
    Except.map]
  rfl

end Value

/-! ## Behind a header -/

theorem startsWithCrlf_eq {mem : Memory} {offset : ℕ} (hterm : Terminated mem)
    (hlt : offset < mem.length) :
    startsWithCrlf mem offset = .ok (decide (BlankAt mem offset)) := by
  have hget := List.getElem?_eq_getElem hlt
  simp only [startsWithCrlf, readByte, hget, ok_bind]
  by_cases hcr : mem[offset] = 13
  · -- a CR is not the last byte of the buffer
    have hlast : offset ≠ mem.length - 1 := by
      rintro rfl
      unfold Terminated at hterm
      rw [hget, hcr] at hterm
      cases hterm
    have hget' := List.getElem?_eq_getElem (by omega : offset + 1 < mem.length)
    simp only [hget', ok_bind, BlankAt, hget, hcr, if_true, Option.some.injEq, true_and]
    rfl
  · simp only [BlankAt, hget, Option.some.injEq, hcr, false_and, decide_false]
    rfl

theorem startsWithCrlf_error {mem : Memory} {offset : ℕ} (hle : mem.length ≤ offset) :
    startsWithCrlf mem offset = .error .outOfBounds := by
  simp [startsWithCrlf, readByte, List.getElem?_eq_none hle]

/-- The buffer behind a header: the name and the line are cut off, and the rest of the
text is untouched. -/
structure Behind (text mem : Memory) (offset start nameStop stop : ℕ) : Prop where
  length : mem.length = text.length
  term : Terminated mem
  le : offset ≤ start
  startLt : start < nameStop
  nameLt : nameStop < stop
  same : ∀ i, offset ≤ i → i ≠ stop → i ≠ nameStop → mem[i]? = text[i]?
  nameCut : mem[nameStop]? = some 0
  cut : mem[stop]? = some 0
  clean : ∀ i, start ≤ i → i < stop → ∃ c, text[i]? = some c ∧ c ≠ 0 ∧ c ∉ lineEnds
  ends : ∃ c, text[stop]? = some c ∧ (c = 0 ∨ c ∈ lineEnds)

section Behind

variable {text mem : Memory} {offset start nameStop stop p : ℕ}

/-- Whether a blank line follows does not depend on the cuts. -/
theorem Behind.blankAt (h : Behind text mem offset start nameStop stop) (hp : offset ≤ p)
    (hstop : p ≠ stop) (hname : p ≠ nameStop) : BlankAt mem p ↔ BlankAt text p := by
  have hget : mem[p]? = text[p]? := h.same p hp hstop hname
  unfold BlankAt
  rw [hget]
  refine and_congr_right fun hcr => ?_
  -- a CR is not part of the line, and only the line is cut
  have hout : ¬(start ≤ p ∧ p < stop) := by
    rintro ⟨hle, hlt⟩
    obtain ⟨c, hc, -, hline⟩ := h.clean p hle hlt
    rw [hcr, Option.some.injEq] at hc
    exact hline (hc ▸ by decide)
  have h1 := h.startLt
  have h2 := h.nameLt
  rw [h.same (p + 1) (by omega) (by omega) (by omega)]

/-- The search for the next header meets the text. -/
theorem Behind.agrees (h : Behind text mem offset start nameStop stop) (hp : nameStop < p)
    (hne : p ≠ stop) : Agrees text mem p where
  length := h.length
  term := h.term
  same := fun i hi => by
    have h1 := h.le
    have h2 := h.startLt
    by_cases hi' : i = stop
    · -- the offset has fallen back into the line
      have hline : CutLine text mem p stop :=
        { le := hi.trans_eq hi'
          same := fun j hj hlt => h.same j (by omega) hlt.ne (by omega)
          clean := fun j hj => h.clean j (by omega)
          cut := h.cut
          ends := h.ends }
      exact .inr ⟨hi' ▸ h.cut, by omega, hi'.trans hline.lineStop_eq.symm⟩
    · exact .inl (h.same i (by omega) hi' (by omega))

/-- The bytes of the name are those of the text. -/
theorem Behind.name (h : Behind text mem offset start nameStop stop) (hp : start ≤ p)
    (hlt : p < nameStop) : ∃ c, mem[p]? = some c ∧ text[p]? = some c ∧ c ≠ 0 ∧ c ∉ lineEnds := by
  have hstop := h.nameLt
  obtain ⟨c, hc, hclean⟩ := h.clean p hp (hlt.trans hstop)
  exact ⟨c, (h.same p (h.le.trans hp) (by omega) hlt.ne).trans hc, hc, hclean⟩

/-- In front of the cut behind the name, the search finds the name or a part of it. -/
theorem Behind.lineStart_lt (h : Behind text mem offset start nameStop stop)
    (hstart : start = lineStart text offset) (hp : offset ≤ p) (hlt : p < nameStop) :
    start ≤ lineStart mem p ∧ lineStart mem p < nameStop := by
  by_cases hle : start ≤ p
  · obtain ⟨c, hc, -, -, hline⟩ := h.name hle hlt
    have heq : lineStart mem p = p := next_self hc (by simpa using hline)
    rw [heq]
    exact ⟨hle, hlt⟩
  · -- the line ends in front of the header are still there
    have heq : lineStart mem p = start := by
      have h1 := h.startLt
      have h2 := h.nameLt
      refine next_eq (by omega) (fun i hpi hi => ?_) ?_
      · obtain ⟨c, hc, hfalse⟩ := next_before (hp.trans hpi) (hi.trans_eq hstart)
        exact ⟨c, (h.same i (hp.trans hpi) (by omega) (by omega)).trans hc, hfalse⟩
      · obtain ⟨c, hc, -, -, hline⟩ := h.name le_rfl h1
        exact ⟨c, hc, by simpa using hline⟩
    rw [heq]
    exact ⟨le_rfl, h.startLt⟩

/-- What it finds has no value. -/
theorem Behind.noValue (h : Behind text mem offset start nameStop stop)
    (hstart : start = lineStart text offset) (hname : nameStop = firstStop (bytes ": ") text start)
    (hp : offset ≤ p) (hlt : p < nameStop) :
    mem[lineStart mem p]? ≠ some 0 ∧
      lineStop mem (lineStart mem p) ≤ firstStop (bytes ": ") mem (lineStart mem p) + 1 := by
  obtain ⟨hle, hlt'⟩ := h.lineStart_lt hstart hp hlt
  obtain ⟨c, hc, -, h0, -⟩ := h.name hle hlt'
  refine ⟨fun hzero => h0 (Option.some.inj (hc.symm.trans hzero)), ?_⟩
  have hstop : lineStop mem (lineStart mem p) ≤ nameStop := next_le hlt'.le h.nameCut (by simp)
  suffices nameStop ≤ firstStop (bytes ": ") mem (lineStart mem p) by omega
  -- a delimiter in front of the cut would have ended the name there
  by_contra hdelim
  push Not at hdelim
  have htoken : lineStart mem p ≤ tokenStart (bytes ": ") mem (lineStart mem p) := le_tokenStart
  have hfield : tokenStart (bytes ": ") mem (lineStart mem p) ≤
      firstStop (bytes ": ") mem (lineStart mem p) := le_fieldStop
  obtain ⟨d, hd, hdText, -⟩ := h.name (hle.trans htoken) (hfield.trans_lt hdelim)
  have hnot := next_at hd
  have hbegun : tokenStart (bytes ": ") text start ≤ tokenStart (bytes ": ") mem
      (lineStart mem p) := next_le (hle.trans htoken) hdText hnot
  obtain ⟨e, he, heText, he0, heLine⟩ := h.name ((hle.trans htoken).trans hfield) hdelim
  have hat := next_at he
  obtain ⟨f, hf, hfalse⟩ := next_before (hbegun.trans hfield) (hdelim.trans_eq hname)
  obtain rfl : f = e := Option.some.inj (hf.symm.trans heText)
  rw [hat] at hfalse
  cases hfalse

end Behind

/-! ## The header loop -/

section Loop

variable {text mem : Memory} {offset behind : ℕ}

/-- A line without a value faults. -/
theorem parseHeaders_noValue (h : Agrees text mem offset) (hterm : Terminated text)
    (hlt : offset < text.length) (hne : text[lineStart text offset]? ≠ some 0)
    (hvalue : lineStop text (lineStart text offset) ≤
      firstStop (bytes ": ") text (lineStart text offset) + 1)
    (fuel : ℕ) (headers : Headers) (saved : Option ℕ) :
    ∃ fault, parseHeaders fuel offset headers { mem := mem, saved := saved } = .error fault := by
  cases fuel with
  | zero => exact ⟨.runsOn, rfl⟩
  | succ fuel =>
    obtain ⟨saved', hline, hloop⟩ := parseHeaders_line h hterm hlt hne fuel headers saved
    obtain ⟨fault, hfault⟩ := parseHeader_error hline (h.term.set _) hvalue
      (offset + (lineStop text (lineStart text offset) - lineStart text offset) + 2)
      headers saved'
    exact ⟨fault, by rw [hloop, hfault]; rfl⟩

/-- The buffer with the line, the name and once more the line cut off. -/
def cutHeader (text mem : Memory) (offset : ℕ) : Memory :=
  ((mem.set (lineStop text (lineStart text offset)) 0).set
    (firstStop (bytes ": ") text (lineStart text offset)) 0).set
    (lineStop text (lineStart text offset)) 0

theorem behind_cutHeader (h : Agrees text mem offset) (hterm : Terminated text)
    (hlt : offset < text.length)
    (hline : CutLine text (mem.set (lineStop text (lineStart text offset)) 0)
      (lineStart text offset) (lineStop text (lineStart text offset)))
    (hvalue : firstStop (bytes ": ") text (lineStart text offset) + 1 <
      lineStop text (lineStart text offset)) :
    Behind text (cutHeader text mem offset) offset (lineStart text offset)
      (firstStop (bytes ": ") text (lineStart text offset))
      (lineStop text (lineStart text offset)) := by
  obtain ⟨-, -, -, hsame⟩ := h.line hterm hlt
  have hstop : lineStop text (lineStart text offset) < mem.length := by
    simpa using (List.getElem?_eq_some_iff.mp hline.cut).1
  -- the name begins with a byte that is no delimiter, so it ends behind its start
  have hname : tokenStart (bytes ": ") text (lineStart text offset) <
      firstStop (bytes ": ") text (lineStart text offset) := by
    refine lt_of_le_of_ne le_fieldStop fun heq => ?_
    have hin : tokenStart (bytes ": ") text (lineStart text offset) <
        lineStop text (lineStart text offset) := by omega
    obtain ⟨c, hc, h0, hclean⟩ := hline.clean _ le_tokenStart hin
    have hnot := next_at hc
    have hat := next_at (heq ▸ hc : text[firstStop (bytes ": ") text
      (lineStart text offset)]? = some c)
    simp only [List.mem_append, decide_eq_true_eq] at hat hnot
    exact hat.elim h0 (Or.elim · hclean hnot)
  exact {
    length := by simpa [cutHeader] using h.length
    term := ((h.term.set _).set _).set _
    le := le_tokenStart
    startLt := le_tokenStart.trans_lt hname
    nameLt := by omega
    same := fun i hi h1 h2 => by
      unfold cutHeader
      rw [List.getElem?_set_ne h1.symm, List.getElem?_set_ne h2.symm,
        List.getElem?_set_ne h1.symm]
      exact hsame i hi h1
    nameCut := by
      unfold cutHeader
      rw [List.getElem?_set_ne (by omega), List.getElem?_set_self (by simp; omega)]
    cut := List.getElem?_set_self (by simp; omega)
    clean := hline.clean
    ends := hline.ends }

/-- A line with a value is stored, and the loop looks at the bytes behind it. -/
theorem parseHeaders_value (h : Agrees text mem offset) (hterm : Terminated text)
    (hlt : offset < text.length) (hne : text[lineStart text offset]? ≠ some 0)
    (hvalue : firstStop (bytes ": ") text (lineStart text offset) + 1 <
      lineStop text (lineStart text offset))
    (hbehind : behind =
      offset + (lineStop text (lineStart text offset) - lineStart text offset) + 2)
    (fuel : ℕ) (headers : Headers) (saved : Option ℕ) :
    ∃ headers' mem' saved', Behind text mem' offset (lineStart text offset)
        (firstStop (bytes ": ") text (lineStart text offset))
        (lineStop text (lineStart text offset)) ∧
      parseHeaders (fuel + 1) offset headers { mem := mem, saved := saved } =
        (startsWithCrlf mem' behind >>= fun blank =>
          if blank then .ok (behind + 2, headers', { mem := mem', saved := saved' })
          else parseHeaders fuel behind headers' { mem := mem', saved := saved' }) := by
  obtain ⟨saved1, hline, hloop⟩ := parseHeaders_line h hterm hlt hne fuel headers saved
  obtain ⟨headers', saved', hparse⟩ := parseHeader_value hline
    (h.term.set _) hvalue behind headers saved1
  refine ⟨headers', cutHeader text mem offset, saved',
    behind_cutHeader h hterm hlt hline hvalue, ?_⟩
  rw [hloop, ← hbehind, hparse]
  change (startsWithCrlf (cutHeader text mem offset) behind >>= _ >>= _) = _
  cases startsWithCrlf (cutHeader text mem offset) behind with
  | error fault => rfl
  | ok blank => cases blank <;> rfl

/-- What an iteration of the loop does, told apart by what the text holds. -/
inductive Outcome (text : Memory) (offset fuel : ℕ)
    (result : Except Fault (ℕ × Headers × CState)) : Prop where
  /-- The loop ends, and the body is searched inside of the buffer. -/
  | stop (hstep : headerStep text offset = .stop)
      (hresult : 0 < fuel → ∃ offset' headers' st, result = .ok (offset', headers', st) ∧
        offset' < st.mem.length ∧ Terminated st.mem)
  /-- The loop goes on, behind a line of at least one byte. -/
  | next (behind : ℕ) (hstep : headerStep text offset = .next behind)
      (hlt : behind < text.length) (hle : offset + 3 ≤ behind)
      (hresult : ∃ headers' mem' saved', Agrees text mem' behind ∧
        result = parseHeaders fuel behind headers' { mem := mem', saved := saved' })
  /-- The loop faults, now or in the next iteration. -/
  | unreadable (hstep : headerStep text offset = .unreadable)
      (hresult : ∃ fault, result = .error fault)

/-- The iteration behind a header whose value has been stored. -/
theorem outcome_behind {start nameStop stop : ℕ}
    (h : Behind text mem offset start nameStop stop) (hstart : start = lineStart text offset)
    (hname : nameStop = firstStop (bytes ": ") text start) (hle : offset ≤ behind)
    (hlt : behind < text.length) (fuel : ℕ) (headers : Headers) (saved : Option ℕ) :
    (behind = stop ∨ behind = nameStop ∨ BlankAt text behind → 0 < fuel →
      ∃ offset' headers' st, (startsWithCrlf mem behind >>= fun blank =>
          if blank then .ok (behind + 2, headers, { mem := mem, saved := saved })
          else parseHeaders fuel behind headers { mem := mem, saved := saved }) =
        .ok (offset', headers', st) ∧ offset' < st.mem.length ∧ Terminated st.mem) ∧
    (¬(behind = stop ∨ behind = nameStop ∨ BlankAt text behind) →
      (startsWithCrlf mem behind >>= fun blank =>
          if blank then .ok (behind + 2, headers, { mem := mem, saved := saved })
          else parseHeaders fuel behind headers { mem := mem, saved := saved }) =
        parseHeaders fuel behind headers { mem := mem, saved := saved } ∧
      (behind < nameStop → ∃ fault,
        parseHeaders fuel behind headers { mem := mem, saved := saved } = .error fault)) := by
  have hlt' : behind < mem.length := h.length ▸ hlt
  rw [startsWithCrlf_eq h.term hlt', ok_bind]
  refine ⟨fun hcases hfuel => ?_, fun hcases => ?_⟩
  · by_cases hblank : BlankAt mem behind
    · rw [if_pos (by simpa using hblank)]
      -- a LF is not the last byte of the buffer
      have hlf : behind + 1 < mem.length := (List.getElem?_eq_some_iff.mp hblank.2).1
      have hlast : behind + 1 ≠ mem.length - 1 := fun heq => by
        have := h.term
        unfold Terminated at this
        rw [← heq, hblank.2] at this
        cases this
      exact ⟨_, _, _, rfl, by dsimp only; omega, h.term⟩
    · rw [if_neg (by simpa using hblank)]
      -- the offset is on a cut: nothing is left for the next search
      have hcut : mem[behind]? = some 0 := by
        by_cases h1 : behind = stop
        · exact h1 ▸ h.cut
        by_cases h2 : behind = nameStop
        · exact h2 ▸ h.nameCut
        exact absurd ((h.blankAt hle h1 h2).mpr ((hcases.resolve_left h1).resolve_left h2)) hblank
      obtain ⟨fuel, rfl⟩ : ∃ n, fuel = n + 1 := ⟨fuel - 1, by omega⟩
      have hstart : lineStart mem behind = behind := next_self hcut (by decide)
      refine ⟨_, _, _, parseHeaders_end (Agrees.refl h.term behind) h.term hlt' ?_ fuel headers
        saved, hlt', h.term⟩
      rw [hstart, hcut]
  · push Not at hcases
    obtain ⟨h1, h2, hblank⟩ := hcases
    rw [if_neg (by simpa using (h.blankAt hle h1 h2).not.mpr hblank)]
    refine ⟨rfl, fun hbefore => ?_⟩
    obtain ⟨hne, hvalue⟩ := h.noValue hstart hname hle hbefore
    exact parseHeaders_noValue (Agrees.refl h.term behind) h.term hlt' hne hvalue fuel headers
      saved

/-- Every iteration has one of the outcomes. -/
theorem parseHeaders_outcome (h : Agrees text mem offset) (hterm : Terminated text)
    (hlt : offset < text.length) (fuel : ℕ) (headers : Headers) (saved : Option ℕ) :
    Outcome text offset fuel
      (parseHeaders (fuel + 1) offset headers { mem := mem, saved := saved }) := by
  by_cases hend : text[lineStart text offset]? = some 0
  · refine .stop (by simp only [headerStep, if_pos hend]) fun _ => ?_
    exact ⟨_, _, _, parseHeaders_end h hterm hlt hend _ headers saved, h.length ▸ hlt, h.term⟩
  by_cases hvalue : lineStop text (lineStart text offset) ≤
      firstStop (bytes ": ") text (lineStart text offset) + 1
  · refine .unreadable (by simp only [headerStep, if_neg hend, if_pos hvalue]) ?_
    exact parseHeaders_noValue h hterm hlt hend hvalue _ headers saved
  -- the header has a value
  obtain ⟨behind, hbehind⟩ : ∃ behind, behind =
    offset + (lineStop text (lineStart text offset) - lineStart text offset) + 2 := ⟨_, rfl⟩
  obtain ⟨headers', mem', saved', hcut, hloop⟩ :=
    parseHeaders_value h hterm hlt hend (not_le.mp hvalue) hbehind fuel headers saved
  have hgrows : offset + 3 ≤ behind := by
    have hstart := hcut.startLt
    omega
  by_cases hin : text.length ≤ behind
  · refine .unreadable ?_ ⟨.outOfBounds, ?_⟩
    · simp only [headerStep, if_neg hend, if_neg hvalue, ← hbehind, if_pos hin]
    · rw [hloop, startsWithCrlf_error (hcut.length ▸ hin)]
      rfl
  obtain ⟨hstop, hgoOn⟩ := outcome_behind hcut rfl rfl
    ((Nat.le_add_right _ _).trans hgrows) (not_le.mp hin) fuel headers' saved'
  rw [← hloop] at hstop hgoOn
  by_cases hcases : behind = lineStop text (lineStart text offset) ∨
      behind = firstStop (bytes ": ") text (lineStart text offset) ∨ BlankAt text behind
  · refine .stop ?_ (hstop hcases)
    simp only [headerStep, if_neg hend, if_neg hvalue, ← hbehind, if_neg hin, if_pos hcases]
  obtain ⟨heq, hfault⟩ := hgoOn hcases
  rw [heq]
  by_cases hbefore : behind < firstStop (bytes ": ") text (lineStart text offset)
  · refine .unreadable ?_ (hfault hbefore)
    simp only [headerStep, if_neg hend, if_neg hvalue, ← hbehind, if_neg hin, if_neg hcases,
      if_pos hbefore]
  · push Not at hcases
    have hbehindName := lt_of_le_of_ne (not_lt.mp hbefore) hcases.2.1.symm
    refine .next behind ?_ (not_le.mp hin) hgrows
      ⟨headers', mem', saved', hcut.agrees hbehindName hcases.1, rfl⟩
    simp only [headerStep, if_neg hend, if_neg hvalue, ← hbehind, if_neg hin, if_neg hbefore,
      if_neg (not_or.mpr ⟨hcases.1, not_or.mpr hcases.2⟩)]

/-- **The header loop** ends without a fault exactly on readable headers. By induction
over the iterations; the offset grows in each of them, so the bound on their number is
not reached. -/
theorem parseHeaders_readable (hterm : Terminated text) (h : Agrees text mem offset)
    (hlt : offset < text.length) (fuel : ℕ) (headers : Headers) (saved : Option ℕ)
    (hfuel : text.length - offset < fuel) :
    (Readable text offset ∧ ∃ offset' headers' st,
      parseHeaders fuel offset headers { mem := mem, saved := saved } =
        .ok (offset', headers', st) ∧ offset' < st.mem.length ∧ Terminated st.mem) ∨
    (¬Readable text offset ∧ ∃ fault,
      parseHeaders fuel offset headers { mem := mem, saved := saved } = .error fault) := by
  induction fuel generalizing offset mem headers saved with
  | zero => exact absurd hfuel (Nat.not_lt_zero _)
  | succ fuel ih =>
    rcases parseHeaders_outcome h hterm hlt fuel headers saved with
      ⟨hstep, hresult⟩ | ⟨behind, hstep, hlt', hle, headers', mem', saved', hagrees, hresult⟩ |
      ⟨hstep, hfault⟩
    · exact .inl ⟨.stop hstep, hresult (by omega)⟩
    · rw [hresult]
      -- the loop goes on behind the line, where the text is readable or not
      rcases ih hagrees hlt' headers' saved' (by omega) with ⟨hread, hok⟩ | ⟨hread, hfault⟩
      · exact .inl ⟨.next hstep hread, hok⟩
      · refine .inr ⟨fun hread' => ?_, hfault⟩
        cases hread' with
        | stop hstep' => rw [hstep] at hstep'; cases hstep'
        | next hstep' hread' =>
          rw [hstep] at hstep'
          exact hread (HeaderStep.next.inj hstep' ▸ hread')
    · refine .inr ⟨?_, hfault⟩
      rintro (hstep' | ⟨hstep', -⟩) <;> rw [hstep] at hstep' <;> cases hstep'

end Loop

/-! ## The whole request -/

/-- A body that is searched inside of the buffer is found. -/
theorem strtok_rest {st : CState} {offset : ℕ} (hterm : Terminated st.mem)
    (hlt : offset < st.mem.length) :
    ∃ p st', strtok (some offset) [] st = .ok (p, st') ∧
      (p = none ∨ ∃ q body, p = some q ∧ readString st'.mem (some q) = .ok body) := by
  obtain ⟨c, hc⟩ : ∃ c, st.mem[offset]? = some c := ⟨_, List.getElem?_eq_getElem hlt⟩
  have hself : tokenStart [] st.mem offset = offset := next_self hc (by simp)
  by_cases h0 : c = 0
  · exact ⟨_, _, strtok_none _ _ (p := offset) rfl (by rw [hself, hc, h0]), .inl rfl⟩
  · have htok := strtok_some [] st (s := some offset) hterm rfl (hself.symm ▸ hc) h0
    rw [hself] at htok
    exact ⟨_, _, htok, .inr ⟨_, _, rfl, readString_ok (hterm.set _) (by simpa using hlt)⟩⟩

/-- A header search that starts outside of the buffer faults. -/
theorem parseHeaders_outside {mem : Memory} {offset : ℕ} (hle : mem.length ≤ offset) (fuel : ℕ)
    (headers : Headers) (saved : Option ℕ) :
    ∃ fault, parseHeaders fuel offset headers { mem := mem, saved := saved } = .error fault := by
  cases fuel with
  | zero => exact ⟨.runsOn, rfl⟩
  | succ fuel =>
    have htok := strtok_outside (bytes "\r\n") { mem := mem, saved := saved }
      (s := some offset) rfl hle
    exact ⟨.outOfBounds, by simp only [parseHeaders, htok, error_bind]⟩

/-- **Robustness**: on the buffer of `handle_client`, `request_parse` returns without a
`NULL` pointer and without a read outside of the buffer exactly if the request is
readable. -/
theorem requestParse_returns_iff (bufferSize : ℕ) (input : List UInt8)
    (hfits : input.length < bufferSize) :
    (∃ request, requestParse (receiveBuffer bufferSize input) = .ok request) ↔
      ReadableRequest (receiveBuffer bufferSize input) := by
  have hterm := terminated_receiveBuffer hfits
  set text := receiveBuffer bufferSize input
  by_cases hwords : secondWord text < startLineStop text
  · obtain ⟨method, path, saved, hstart⟩ := parseStartLine_ok hterm hwords
    have hlength : (cutStartLine text).length = text.length := by simp [cutStartLine]
    have htermCut : Terminated (cutStartLine text) := (((hterm.set _).set _).set _).set _
    by_cases hin : headersOffset text < text.length
    · have hfuel : (cutStartLine text).length - headersOffset text < text.length := by
        unfold headersOffset
        omega
      rcases parseHeaders_readable htermCut (Agrees.refl htermCut (headersOffset text))
        (hlength ▸ hin) text.length headersCreate saved hfuel with
        ⟨hread, offset, headers, st, hheaders, hlt, htermSt⟩ | ⟨hread, fault, hheaders⟩
      · refine iff_of_true ?_ ⟨hwords, hin, hread⟩
        obtain ⟨p, st', hbody, hp⟩ := strtok_rest htermSt hlt
        simp only [requestParse, hstart, ok_bind, hheaders, hbody]
        rcases hp with rfl | ⟨q, body, rfl, hread⟩
        · exact ⟨_, rfl⟩
        · simp only [hread, ok_bind]
          exact ⟨_, rfl⟩
      · -- a header faults
        refine iff_of_false ?_ fun hreq => hread hreq.headers
        rintro ⟨request, hok⟩
        simp only [requestParse, hstart, ok_bind, hheaders, error_bind] at hok
        cases hok
    · -- the buffer ends with the start line
      have hout : (cutStartLine text).length ≤ headersOffset text := hlength ▸ not_lt.mp hin
      obtain ⟨fault, hheaders⟩ := parseHeaders_outside hout text.length headersCreate saved
      refine iff_of_false ?_ fun hreq => hin hreq.inside
      rintro ⟨request, hok⟩
      simp only [requestParse, hstart, ok_bind, hheaders, error_bind] at hok
      cases hok
  · -- the start line faults
    obtain ⟨fault, hstart⟩ := parseStartLine_error hterm hwords
    refine iff_of_false ?_ fun hreq => hwords hreq.words
    rintro ⟨request, hok⟩
    simp only [requestParse, hstart, error_bind] at hok
    cases hok

/-- A request with one header, in a buffer of 40 bytes. -/
theorem requestParse_returns_iff_get :
    ∃ request, requestParse (receiveBuffer 40 (bytes "GET / HTTP/1.1\r\nHost: a\r\n\r\n")) =
      .ok request :=
  (requestParse_returns_iff 40 (bytes "GET / HTTP/1.1\r\nHost: a\r\n\r\n") (by decide)).mpr
    ⟨by decide, by decide, .stop (by decide)⟩

/-- A request whose header has no value and no space behind the colon. -/
def emptyHost : List UInt8 := bytes "GET / HTTP/1.1\r\nHost:\r\n\r\n"

/-- Such a header faults, whatever follows in the buffer. -/
theorem requestParse_emptyHost (rest : List UInt8)
    (hterm : Terminated (emptyHost ++ 0 :: rest)) :
    ∃ fault, requestParse (emptyHost ++ 0 :: rest) = .error fault := by
  -- the start line is fine
  have hstop : startLineStop (emptyHost ++ 0 :: rest) = 14 := rfl
  have hstart : lineStart (emptyHost ++ 0 :: rest) 0 = 0 := rfl
  have hfirst : firstStop (bytes " ") (emptyHost ++ 0 :: rest) 0 = 3 := rfl
  have hsecond : firstStop (bytes " ") (emptyHost ++ 0 :: rest) 3 = 5 := rfl
  have hthird : firstStop (bytes " ") (emptyHost ++ 0 :: rest) 5 = 14 := rfl
  have hwords : secondWord (emptyHost ++ 0 :: rest) < startLineStop (emptyHost ++ 0 :: rest) := by
    have hword : secondWord (emptyHost ++ 0 :: rest) = 4 := rfl
    rw [hword, hstop]
    decide
  have hcut : cutStartLine (emptyHost ++ 0 :: rest) =
      bytes "GET\x00/\x00HTTP/1.1\x00\nHost:\r\n\r\n" ++ 0 :: rest := by
    simp only [cutStartLine, hstart, hfirst, hsecond, hthird, hstop]
    rfl
  have hoffset : headersOffset (emptyHost ++ 0 :: rest) = 16 := by
    rw [headersOffset, hstop, hstart]
  obtain ⟨method, path, saved, hline⟩ := parseStartLine_ok hterm hwords
  have htermCut : Terminated (cutStartLine (emptyHost ++ 0 :: rest)) :=
    (((hterm.set _).set _).set _).set _
  rw [hoffset] at hline
  -- the first header ends with its colon
  have hheader : lineStart (cutStartLine (emptyHost ++ 0 :: rest)) 16 = 16 := by
    rw [hcut]
    rfl
  have hlineStop : lineStop (cutStartLine (emptyHost ++ 0 :: rest)) 16 = 21 := by
    rw [hcut]
    rfl
  have hname : firstStop (bytes ": ") (cutStartLine (emptyHost ++ 0 :: rest)) 16 = 20 := by
    rw [hcut]
    rfl
  have hbyte : (cutStartLine (emptyHost ++ 0 :: rest))[16]? = some 72 := by
    rw [hcut]
    rfl
  obtain ⟨fault, hfault⟩ := parseHeaders_noValue (Agrees.refl htermCut 16) htermCut
    (List.getElem?_eq_some_iff.mp hbyte).1 (by rw [hheader, hbyte]; decide)
    (by rw [hheader, hlineStop, hname]) (emptyHost ++ 0 :: rest).length headersCreate saved
  exact ⟨fault, by simp only [requestParse, hline, ok_bind, hfault, error_bind]⟩

/-- In the server's default buffer, a header without a value and without a space makes
`request_parse` read through a `NULL` value pointer. -/
theorem not_requestParse_emptyHost :
    ¬∃ request, requestParse (receiveBuffer (1024 * 1024) emptyHost) = .ok request := by
  have hfits : emptyHost.length < 1024 * 1024 := by decide
  have hterm := terminated_receiveBuffer hfits
  rw [receiveBuffer_eq hfits] at hterm ⊢
  obtain ⟨fault, hfault⟩ := requestParse_emptyHost _ hterm
  rintro ⟨request, hok⟩
  rw [hfault] at hok
  cases hok

end NetworkServers.Http
