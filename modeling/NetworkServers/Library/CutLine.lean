import NetworkServers.Library.CString

/-!
# Lines Cut Out of a Buffer

A parser that takes a line out of its buffer with `strtok` goes on to take the line
apart with further `strtok` calls. What these find can be said about the text as it
was before any of the cuts: the searches inside the line meet the original bytes, and
the first cut keeps them from leaving the line.
-/

namespace NetworkServers.CString

/-- The bytes at which a line ends. -/
def lineEnds : List UInt8 := [13, 10]

/-- The first byte from `p` on that is not part of a line end. -/
def lineStart (text : Memory) (p : ℕ) : ℕ := tokenStart lineEnds text p

/-- The end of the line that `p` is on. -/
def lineStop (text : Memory) (p : ℕ) : ℕ := tokenStop lineEnds text p

/-- The end of a token inside the line that `p` is on. -/
def fieldStop (delim : List UInt8) (text : Memory) (p : ℕ) : ℕ :=
  tokenStop (lineEnds ++ delim) text p

/-- The end of the first token at or behind a position of a line. -/
def firstStop (delim : List UInt8) (text : Memory) (p : ℕ) : ℕ :=
  fieldStop delim text (tokenStart delim text p)

theorem le_tokenStart {delim : List UInt8} {text : Memory} {p : ℕ} :
    p ≤ tokenStart delim text p := le_next

theorem le_fieldStop {delim : List UInt8} {text : Memory} {p : ℕ} :
    p ≤ fieldStop delim text p := le_next

/-- In `mem`, the line of `text` that ends at `stop` has been cut off there, and from
`p` on it is as it was. -/
structure CutLine (text mem : Memory) (p stop : ℕ) : Prop where
  le : p ≤ stop
  same : ∀ i, p ≤ i → i < stop → mem[i]? = text[i]?
  clean : ∀ i, p ≤ i → i < stop → ∃ c, text[i]? = some c ∧ c ≠ 0 ∧ c ∉ lineEnds
  cut : mem[stop]? = some 0
  ends : ∃ c, text[stop]? = some c ∧ (c = 0 ∨ c ∈ lineEnds)

section Searches

variable {text mem : Memory} {delim : List UInt8} {p q stop : ℕ}

theorem readString_ok (hterm : Terminated mem) (hp : p < mem.length) :
    readString mem (some p) = .ok ((mem.drop p).take (next (· == 0) mem p - p)) := by
  have hstop : next (· == 0) mem p < mem.length := hterm.next_lt rfl hp
  simp only [readString, if_pos (And.intro hp hstop)]

/-- Passing an element at which the search does not stop. -/
theorem next_succ {α : Type*} {stop : α → Bool} {l : List α} {c : α} (hc : l[p]? = some c)
    (hstop : stop c = false) : next stop l p = next stop l (p + 1) := by
  have hlt : p < l.length := (List.getElem?_eq_some_iff.mp hc).1
  have hget : l[p] = c := (List.getElem?_eq_some_iff.mp hc).2
  unfold next
  rw [List.drop_eq_getElem_cons hlt, List.findIdx_cons, hget, hstop]
  simp only [cond_false]
  omega

/-- A line that is taken out of the text. -/
theorem CutLine.of_lineStop (hterm : Terminated text) (hp : p < text.length)
    (hsame : ∀ i, p ≤ i → i ≠ lineStop text p → mem[i]? = text[i]?)
    (hcut : mem[lineStop text p]? = some 0) : CutLine text mem p (lineStop text p) where
  le := le_next
  same := fun i hpi hi => hsame i hpi hi.ne
  clean := fun i hpi hi => by
    obtain ⟨c, hc, hfalse⟩ := next_before hpi hi
    exact ⟨c, hc, by simpa using hfalse⟩
  cut := hcut
  ends := by
    have hlt : lineStop text p < text.length := hterm.next_lt (by simp) hp
    have hget := List.getElem?_eq_getElem hlt
    exact ⟨_, hget, by simpa using next_at hget⟩

namespace CutLine

variable (h : CutLine text mem p stop)
include h

/-- A later position of the line. -/
theorem mono (hpq : p ≤ q) (hq : q ≤ stop) : CutLine text mem q stop where
  le := hq
  same := fun i hi => h.same i (hpq.trans hi)
  clean := fun i hi => h.clean i (hpq.trans hi)
  cut := h.cut
  ends := h.ends

/-- A cut at or before the end leaves the rest of the line. -/
theorem set {t : ℕ} (ht : t ≤ stop) (hpt : p ≤ t) :
    CutLine text (mem.set t 0) (min (t + 1) stop) stop where
  le := min_le_right _ _
  same := fun i hi hlt => by
    rw [List.getElem?_set_ne (by omega)]
    exact h.same i (by omega) hlt
  clean := fun i hi => h.clean i (by omega)
  cut := by
    have hlt : stop < mem.length := (List.getElem?_eq_some_iff.mp h.cut).1
    by_cases heq : t = stop
    · rw [heq, List.getElem?_set_self hlt]
    · rw [List.getElem?_set_ne heq]
      exact h.cut
  ends := h.ends

/-- Delimiters are skipped inside the line. -/
theorem tokenStart_eq (hdelim : ∀ c ∈ delim, c ≠ 0 ∧ c ∉ lineEnds) :
    tokenStart delim mem p = tokenStart delim text p ∧ tokenStart delim text p ≤ stop := by
  obtain ⟨c, hc, hend⟩ := h.ends
  have hnot : c ∉ delim := fun hmem => by
    rcases hend with h0 | hline
    · exact (hdelim c hmem).1 h0
    · exact (hdelim c hmem).2 hline
  have hle : tokenStart delim text p ≤ stop := next_le h.le hc (by simpa using hnot)
  refine ⟨next_congr (fun i hpi hi => h.same i hpi (hi.trans_le hle)) ?_, hle⟩
  -- the search ends on a byte of the line, or on the cut behind it
  rcases hle.lt_or_eq with hlt | heq
  · obtain ⟨d, hd, -⟩ := h.clean _ le_next hlt
    have hstop := next_at hd
    exact ⟨d, (h.same _ le_next hlt).trans hd, hstop⟩
  · refine ⟨0, ?_, by simpa using fun h0 => (hdelim 0 h0).1 rfl⟩
    exact (congrArg (mem[·]?) heq).trans h.cut

variable (delim) in
/-- A token ends inside the line or with it. -/
theorem tokenStop_eq :
    tokenStop delim mem p = fieldStop delim text p ∧ fieldStop delim text p ≤ stop := by
  obtain ⟨c, hc, hend⟩ := h.ends
  have hle : fieldStop delim text p ≤ stop := by
    refine next_le h.le hc ?_
    simp only [List.mem_append, decide_eq_true_eq]
    exact hend.imp id .inl
  refine ⟨next_eq le_next (fun i hpi hi => ?_) ?_, hle⟩
  · obtain ⟨d, hd, hfalse⟩ := next_before hpi hi
    refine ⟨d, (h.same i hpi (hi.trans_le hle)).trans hd, ?_⟩
    simp only [List.mem_append, decide_eq_false_iff_not, not_or] at hfalse ⊢
    exact ⟨hfalse.1, hfalse.2.2⟩
  · rcases hle.lt_or_eq with hlt | heq
    · obtain ⟨d, hd, h0, hline⟩ := h.clean _ le_next hlt
      refine ⟨d, (h.same _ le_next hlt).trans hd, ?_⟩
      have hstop := next_at hd
      simp only [List.mem_append, decide_eq_true_eq] at hstop ⊢
      exact hstop.imp id (Or.resolve_left · hline)
    · exact ⟨0, (congrArg (mem[·]?) heq).trans h.cut, by simp⟩

/-- A search that skips the delimiter behind a token finds what a search from the
delimiter finds. -/
theorem tokenStart_behind :
    tokenStart delim text (min (fieldStop delim text p + 1) stop) =
      tokenStart delim text (fieldStop delim text p) := by
  rcases (h.tokenStop_eq delim).2.lt_or_eq with hlt | heq
  · rw [Nat.min_eq_left hlt]
    obtain ⟨c, hc, h0, hline⟩ := h.clean _ le_fieldStop hlt
    have hstop := next_at hc
    simp only [List.mem_append, decide_eq_true_eq] at hstop
    have hmem : c ∈ delim := (hstop.resolve_left h0).resolve_left hline
    exact (next_succ hc (by simpa using hmem)).symm
  · rw [heq, Nat.min_eq_right (Nat.le_succ _)]

/-- What is left of the line is one token for no delimiters. -/
theorem fieldStop_nil : fieldStop [] text p = stop := by
  refine next_eq h.le (fun i hpi hi => ?_) ?_
  · obtain ⟨c, hc, h0, hline⟩ := h.clean i hpi hi
    exact ⟨c, hc, by simpa using ⟨h0, hline⟩⟩
  · obtain ⟨c, hc, hend⟩ := h.ends
    exact ⟨c, hc, by simpa using hend⟩

theorem lineStop_eq : lineStop text p = stop := by
  rw [← h.fieldStop_nil, fieldStop, List.append_nil]
  rfl

/-- The string from here on is the rest of the line. -/
theorem next_nul : next (· == 0) mem p = stop := by
  refine next_eq h.le (fun i hpi hi => ?_) ⟨0, h.cut, rfl⟩
  obtain ⟨c, hc, h0, -⟩ := h.clean i hpi hi
  exact ⟨c, (h.same i hpi hi).trans hc, by simpa using h0⟩

theorem readString_length (hterm : Terminated mem) :
    ∃ s, readString mem (some p) = .ok s ∧ s.length = stop - p := by
  have hlt : stop < mem.length := (List.getElem?_eq_some_iff.mp h.cut).1
  have hp : p < mem.length := h.le.trans_lt hlt
  refine ⟨_, readString_ok hterm hp, ?_⟩
  rw [h.next_nul, List.length_take, List.length_drop]
  omega

variable {s : Option ℕ} (saved : Option ℕ) (hterm : Terminated mem) (hs : s.or saved = some p)
  (hdelim : ∀ c ∈ delim, c ≠ 0 ∧ c ∉ lineEnds)
include hs hdelim

/-- No token is left in the line. -/
theorem strtok_none (hend : tokenStart delim text p = stop) :
    strtok s delim { mem := mem, saved := saved } =
      .ok (none, { mem := mem, saved := some stop }) := by
  have hstart := (h.tokenStart_eq hdelim).1.trans hend
  rw [CString.strtok_none delim { mem := mem, saved := saved } hs
    (by simpa only [hstart] using h.cut), hstart]

include hterm

/-- A token is left in the line: the rest of the line stands behind it. -/
theorem strtok_some (hlt : tokenStart delim text p < stop) :
    strtok s delim { mem := mem, saved := saved } =
      .ok (some (tokenStart delim text p),
        { mem := mem.set (firstStop delim text p) 0
          saved := some (min (firstStop delim text p + 1) stop) }) := by
  have hstart := (h.tokenStart_eq hdelim).1
  have htoken := h.mono le_tokenStart hlt.le
  obtain ⟨hstop, hle⟩ := htoken.tokenStop_eq delim
  obtain ⟨c, hc, h0, -⟩ := h.clean _ le_tokenStart hlt
  have hget : mem[tokenStart delim mem p]? = some c := by
    rw [hstart]
    exact (h.same _ le_tokenStart hlt).trans hc
  rw [CString.strtok_some delim { mem := mem, saved := saved } hterm hs hget h0]
  simp only [hstart, hstop, firstStop]
  congr 3
  -- the token is followed by a delimiter, or it is the last one of the line
  unfold behind
  rcases hle.lt_or_eq with hlt' | heq
  · obtain ⟨d, hd, hd0, -⟩ := htoken.clean _ le_fieldStop hlt'
    rw [if_neg, Nat.min_eq_left hlt']
    rw [htoken.same _ le_fieldStop hlt', hd]
    simpa using hd0
  · rw [heq, if_pos h.cut, Nat.min_eq_right (Nat.le_succ _)]

omit hterm in
/-- At the end of the line no token is left. -/
theorem strtok_end (hp : p = stop) :
    strtok s delim { mem := mem, saved := saved } =
      .ok (none, { mem := mem, saved := some stop }) := by
  refine h.strtok_none saved hs hdelim (le_antisymm (h.tokenStart_eq hdelim).2 ?_)
  rw [hp]
  exact le_tokenStart

/-- A token is left in the line, and the next call goes on behind it. -/
theorem strtok_next (hlt : tokenStart delim text p < stop) :
    ∃ mem' q, strtok s delim { mem := mem, saved := saved } =
        .ok (some (tokenStart delim text p), { mem := mem', saved := some q }) ∧
      mem' = mem.set (firstStop delim text p) 0 ∧ Terminated mem' ∧
      CutLine text mem' q stop ∧
      tokenStart delim text q = tokenStart delim text (firstStop delim text p) := by
  have htoken := h.mono le_tokenStart hlt.le
  have hle := (htoken.tokenStop_eq delim).2
  exact ⟨_, _, h.strtok_some saved hterm hs hdelim hlt, rfl, hterm.set _,
    htoken.set hle le_fieldStop, htoken.tokenStart_behind⟩

/-- Whether a token is left or not, the line is as if its next token was cut off. -/
theorem strtok_last :
    ∃ token saved', strtok s delim { mem := mem, saved := saved } =
      .ok (token, { mem := mem.set (firstStop delim text p) 0, saved := saved' }) := by
  rcases (h.tokenStart_eq hdelim).2.lt_or_eq with hlt | heq
  · exact ⟨_, _, h.strtok_some saved hterm hs hdelim hlt⟩
  · -- the end of the line is cut already
    have hstop : firstStop delim text p = stop :=
      le_antisymm (((h.mono h.le le_rfl).tokenStop_eq delim).2.trans' (by rw [firstStop, heq]))
        (heq ▸ le_fieldStop)
    have hlt : stop < mem.length := (List.getElem?_eq_some_iff.mp h.cut).1
    have hset : mem.set stop 0 = mem := by
      rw [← (List.getElem?_eq_some_iff.mp h.cut).2, List.set_getElem_self]
    rw [hstop, hset]
    exact ⟨_, _, h.strtok_none saved hs hdelim heq⟩

end CutLine

end Searches

end NetworkServers.CString
