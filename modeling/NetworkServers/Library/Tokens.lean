import NetworkServers.Library.CutLine

/-!
# Tokens in Any Buffer

What can be said of the tokens that `strtok` finds without knowing the buffer: which bytes
are in it, where the lines begin and which of them have been cut before. A token is a piece
between its start and a NUL, and the tokens of a piece are pieces of it.
-/

namespace NetworkServers.CString

/-- From `p` up to a NUL at `stop` there is neither a NUL nor a byte to avoid. -/
structure Piece (avoid : List UInt8) (mem : Memory) (p stop : ℕ) : Prop where
  le : p ≤ stop
  inside : ∀ i, p ≤ i → i < stop → ∃ c, mem[i]? = some c ∧ c ≠ 0 ∧ c ∉ avoid
  ends : mem[stop]? = some 0

section Piece

variable {avoid delim : List UInt8} {mem : Memory} {p q stop : ℕ}

theorem Piece.mono (h : Piece avoid mem p stop) (hpq : p ≤ q) (hq : q ≤ stop) :
    Piece avoid mem q stop where
  le := hq
  inside := fun i hi => h.inside i (hpq.trans hi)
  ends := h.ends

/-- A cut at the end of a piece or behind it leaves the piece. -/
theorem Piece.set (h : Piece avoid mem p stop) {i : ℕ} (hi : stop ≤ i) :
    Piece avoid (mem.set i 0) p stop where
  le := h.le
  inside := by
    intro j hpj hj
    rw [List.getElem?_set_ne (by omega)]
    exact h.inside j hpj hj
  ends := by
    have hlt : stop < mem.length := (List.getElem?_eq_some_iff.mp h.ends).1
    rcases hi.eq_or_lt with rfl | hlater
    · rw [List.getElem?_set_self hlt]
    · rw [List.getElem?_set_ne hlater.ne']
      exact h.ends

/-- The string at the start of a piece is the piece. -/
theorem Piece.readString (h : Piece avoid mem p stop) {text : List UInt8}
    (hread : readString mem (some p) = .ok text) :
    text.length = stop - p ∧ ∀ c ∈ text, c ≠ 0 ∧ c ∉ avoid := by
  have hnext : next (· == 0) mem p = stop := by
    refine next_eq h.le ?_ ⟨0, h.ends, rfl⟩
    intro i hpi hi
    obtain ⟨c, hc, hc0, -⟩ := h.inside i hpi hi
    exact ⟨c, hc, by simpa using hc0⟩
  have hlt : stop < mem.length := (List.getElem?_eq_some_iff.mp h.ends).1
  unfold CString.readString at hread
  dsimp only at hread
  rw [hnext, if_pos ⟨h.le.trans_lt hlt, hlt⟩] at hread
  obtain rfl := Except.ok.inj hread
  constructor
  · rw [List.length_take, List.length_drop]
    omega
  · intro c hc
    obtain ⟨i, hi, hget⟩ := List.getElem_of_mem hc
    rw [List.length_take] at hi
    have hin : i < stop - p := by omega
    obtain ⟨d, hd, hd0, hclean⟩ := h.inside (p + i) (Nat.le_add_right p i) (by omega)
    -- the byte of the string is the one in the buffer
    have hsame : some c = some d := by
      rw [← hget, ← List.getElem?_eq_getElem, List.getElem?_take_of_lt hin, List.getElem?_drop, hd]
    obtain rfl := Option.some.inj hsame
    exact ⟨hd0, hclean⟩

end Piece

/-! ## Tokens -/

section Tokens

variable {avoid delim : List UInt8} {st st' : CState} {s : Option ℕ} {p q stop : ℕ}

/-- A token is a piece of at least one byte, without delimiters, that has been cut off. -/
theorem piece_of_strtok (h : strtok s delim st = .ok (some p, st')) :
    ∃ e, p < e ∧ Piece delim st'.mem p e ∧ st'.mem = st.mem.set e 0 ∧
      st'.saved = some (behind st.mem e) := by
  obtain ⟨q, c, d, -, rfl, hc, hc0, hd, rfl⟩ := strtok_eq_some h
  have hin : tokenStop delim st.mem (tokenStart delim st.mem q) < st.mem.length :=
    (List.getElem?_eq_some_iff.mp hd).1
  refine ⟨tokenStop delim st.mem (tokenStart delim st.mem q), ?_, ⟨le_next, ?_, ?_⟩, rfl, rfl⟩
  · -- the search for the end passes the first byte
    refine lt_of_le_of_ne le_next ?_
    intro heq
    have hstop := next_at (heq ▸ hc : st.mem[tokenStop delim st.mem
      (tokenStart delim st.mem q)]? = some c)
    have hstart := next_at hc
    simp only [decide_eq_true_eq] at hstop hstart
    exact hstop.elim hc0 hstart
  · intro i hpi hi
    rw [List.getElem?_set_ne hi.ne']
    obtain ⟨b, hb, hfalse⟩ := next_before hpi hi
    simp only [decide_eq_false_iff_not, not_or] at hfalse
    exact ⟨b, hb, hfalse⟩
  · rw [List.getElem?_set_self hin]

/-- A token that is found is not empty. -/
theorem readString_token {text : List UInt8} (h : strtok s delim st = .ok (some p, st'))
    (hread : readString st'.mem (some p) = .ok text) : text ≠ [] := by
  obtain ⟨e, hlt, hpiece, -, -⟩ := piece_of_strtok h
  have hlength := (hpiece.readString hread).1
  apply List.ne_nil_of_length_pos
  omega

/-- Nothing is found in an empty piece. -/
theorem strtok_at_nul (hs : s.or st.saved = some q) (hq : st.mem[q]? = some 0)
    (hdelim : 0 ∉ delim) (h : strtok s delim st = .ok (some p, st')) : False := by
  obtain ⟨q', c, -, hs', rfl, hc, hc0, -⟩ := strtok_eq_some h
  obtain rfl := Option.some.inj (hs.symm.trans hs')
  have hself : tokenStart delim st.mem q = q := next_self hq (by simpa using hdelim)
  rw [hself, hq] at hc
  exact hc0 (Option.some.inj hc).symm

/-- Where nothing is found in a piece, the search ends with it. -/
theorem Piece.strtok_none (hpiece : Piece avoid st.mem q stop) (hs : s.or st.saved = some q)
    (hdelim : 0 ∉ delim) (h : strtok s delim st = .ok (none, st')) :
    st'.mem = st.mem ∧ st'.saved = some stop := by
  obtain ⟨q', hs', hnul, rfl⟩ := strtok_eq_none h
  obtain rfl := Option.some.inj (hs.symm.trans hs')
  have hle : tokenStart delim st.mem q ≤ stop := next_le hpiece.le hpiece.ends (by simpa using hdelim)
  refine ⟨rfl, ?_⟩
  rcases hle.lt_or_eq with hlt | heq
  · -- inside of the piece there is no NUL
    obtain ⟨c, hc, hc0, -⟩ := hpiece.inside _ le_next hlt
    exact absurd (Option.some.inj (hnul.symm.trans hc)).symm hc0
  · rw [heq]

/-- A token that is found in a piece is a piece of it, and the rest of the piece stands
behind it. -/
theorem Piece.strtok_some (hpiece : Piece avoid st.mem q stop) (hs : s.or st.saved = some q)
    (hdelim : 0 ∉ delim) (h : strtok s delim st = .ok (some p, st')) :
    ∃ e q', q ≤ p ∧ p < e ∧ e ≤ q' ∧ Piece (avoid ++ delim) st'.mem p e ∧
      st'.saved = some q' ∧ Piece avoid st'.mem q' stop ∧ st'.mem = st.mem.set e 0 := by
  obtain ⟨e, hlt, htoken, hmem, hsaved⟩ := piece_of_strtok h
  obtain ⟨q', c, -, hs', rfl, hc, hc0, -, -⟩ := strtok_eq_some h
  obtain rfl := Option.some.inj (hs.symm.trans hs')
  have hstart : tokenStart delim st.mem q ≤ stop :=
    next_le hpiece.le hpiece.ends (by simpa using hdelim)
  have hother : ∀ i, i ≠ e → st'.mem[i]? = st.mem[i]? := by
    intro i hi
    rw [hmem, List.getElem?_set_ne hi.symm]
  -- the token ends at the NUL behind the piece, or before it
  have hend : e ≤ stop := by
    by_contra hgt
    obtain ⟨b, hb, hb0, -⟩ := htoken.inside stop hstart (not_le.mp hgt)
    rw [hother stop (by omega), hpiece.ends] at hb
    exact hb0 (Option.some.inj hb).symm
  refine ⟨e, _, le_next, hlt, ?_, ⟨hlt.le, ?_, htoken.ends⟩, hsaved, ?_, hmem⟩
  · unfold behind
    split
    · exact le_rfl
    · exact Nat.le_succ e
  · intro i hpi hi
    obtain ⟨b, hb, hb0, hfree⟩ := htoken.inside i hpi hi
    obtain ⟨b', hb', -, havoid⟩ := hpiece.inside i (le_next.trans hpi) (hi.trans_le hend)
    rw [hother i hi.ne, hb'] at hb
    obtain rfl := Option.some.inj hb
    refine ⟨b', by rw [hother i hi.ne, hb'], hb0, ?_⟩
    rw [List.mem_append]
    exact not_or.mpr ⟨havoid, hfree⟩
  · rcases hend.eq_or_lt with rfl | hbefore
    · -- nothing is left of the piece
      rw [behind, if_pos hpiece.ends]
      exact ⟨le_rfl, fun i hi hi' => absurd hi (not_le.mpr hi'), htoken.ends⟩
    · obtain ⟨b, hb, hb0, -⟩ := hpiece.inside e (le_next.trans hlt.le) hbefore
      rw [behind, if_neg (by rw [hb]; simpa using hb0)]
      refine ⟨hbefore, ?_, ?_⟩
      · intro i hi hi'
        rw [hother i (by omega)]
        exact hpiece.inside i ((le_next.trans hlt.le).trans (Nat.le_of_succ_le hi)) hi'
      · rw [hother stop hbefore.ne']
        exact hpiece.ends

/-- What stands before the place where a search begins stays as it is. -/
theorem Piece.strtok (hpiece : Piece avoid st.mem q stop) {r : ℕ} (hs : s.or st.saved = some r)
    (hr : stop ≤ r) {token : Option ℕ} (h : strtok s delim st = .ok (token, st')) :
    Piece avoid st'.mem q stop := by
  cases token with
  | none =>
    obtain ⟨_, -, -, rfl⟩ := strtok_eq_none h
    exact hpiece
  | some p =>
    obtain ⟨e, hlt, -, hmem, -⟩ := piece_of_strtok h
    obtain ⟨r', -, -, hs', hp, -⟩ := strtok_eq_some h
    obtain rfl := Option.some.inj (hs.symm.trans hs')
    have hle : r ≤ p := hp ▸ le_next
    rw [hmem]
    apply hpiece.set
    omega

end Tokens

end NetworkServers.CString
