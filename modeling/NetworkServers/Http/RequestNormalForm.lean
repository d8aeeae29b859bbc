import NetworkServers.Http.RequestHead
import NetworkServers.Http.Response

/-!
# The Normal Form of a Request

Whatever `request_parse` accepts, it has cut out of its buffer with `strtok`, so that no part
of the request holds what it was cut out with: no word of the start line a space or a line
end, no header a line end. This does not depend on where the hand-kept offset points. A
request like this can be rendered, and is read back from its rendering.
-/

namespace NetworkServers.Http

open NetworkServers.CString NetworkServers.Machine

/-! ## The normal form -/

/-- A word of the start line. -/
def IsWord (word : List UInt8) : Prop := word ≠ [] ∧ ∀ c ∈ word, c ∉ [0, 10, 13, 32]

/-- A header as it is stored: a name in lower case that ends neither the line nor itself, and
a value that does not end the line. -/
structure IsField (field : Header) : Prop where
  name_ne : field.name ≠ []
  name_clean : ∀ c ∈ field.name, c ∉ [0, 10, 13, 32, 58]
  name_lower : ∀ c ∈ field.name, ¬(65 ≤ c ∧ c ≤ 90)
  value_clean : ∀ c ∈ field.value, c ∉ [0, 10, 13]

structure NormalForm (request : Request) : Prop where
  method : IsWord request.method
  path : IsWord request.path
  fields : ∀ field ∈ request.headers.fields, IsField field
  body : ∀ c ∈ request.body, c ≠ 0

/-! ## One header -/

section Header

variable {line offset offset' stop : ℕ} {headers headers' : Headers} {goOn : Bool}
  {st st' : CState}

/-- What the body of the loop stores of a line: a name of at least one byte, and a value. -/
theorem parseHeader_stored (hline : Piece (bytes "\r\n") st.mem line stop)
    (h : parseHeader line offset headers st = .ok (goOn, offset', headers', st')) :
    ∃ name value, headers' = headersSet headers (some name) (some value) ∧ name ≠ [] ∧
      (∀ c ∈ name, c ∉ [0, 10, 13, 32, 58]) ∧ ∀ c ∈ value, c ∉ [0, 10, 13] := by
  obtain ⟨⟨name, st1⟩, hname, hbehindName⟩ := bind_eq_ok.mp h
  obtain ⟨⟨value, st2⟩, hvalue, hbehindValue⟩ := bind_eq_ok.mp hbehindName
  obtain ⟨first, hfirst, hreads⟩ := bind_eq_ok.mp hbehindValue
  obtain ⟨text, htext, hstores⟩ := bind_eq_ok.mp hreads
  clear h hbehindName hbehindValue hreads
  dsimp only at hvalue hfirst htext hstores
  -- the first byte of the value has been read
  obtain ⟨v, rfl⟩ : ∃ v, value = some v := by
    cases value with
    | none => cases hfirst
    | some v => exact ⟨v, rfl⟩
  cases name with
  | none =>
    -- without a name, nothing is left for the value
    obtain ⟨hmem, hsaved⟩ := hline.strtok_none rfl (by decide) hname
    have hnul : st1.mem[stop]? = some 0 := hmem ▸ hline.ends
    exact (strtok_at_nul (s := none) hsaved hnul (by decide) hvalue).elim
  | some p =>
    obtain ⟨e, q, -, hlt, heq, hpiece, hsaved, hrest, -⟩ := hline.strtok_some rfl (by decide) hname
    obtain ⟨e', -, -, hlt', -, hvaluePiece, -, -, -⟩ :=
      hrest.strtok_some (s := none) hsaved (by decide) hvalue
    have hnamePiece := hpiece.strtok (s := none) hsaved heq hvalue
    dsimp only at hstores
    obtain ⟨stored, hstored, hblank⟩ := bind_eq_ok.mp hstores
    obtain ⟨blank, -, hresult⟩ := bind_eq_ok.mp hblank
    cases hresult
    obtain ⟨nameText, hread, rfl⟩ := map_eq_ok.mp hstored
    obtain ⟨hlength, hclean⟩ := hnamePiece.readString hread
    refine ⟨nameText, text, rfl, List.ne_nil_of_length_pos (by omega), ?_, ?_⟩
    · intro c hc
      obtain ⟨hc0, hfree⟩ := hclean c hc
      simp only [bytes_crlf, bytes_colon_space, List.cons_append, List.nil_append, List.mem_cons,
        List.not_mem_nil, or_false] at hfree ⊢
      grind
    · -- the value begins at the token, or behind the space in front of it
      obtain ⟨v', htext', hv'⟩ : ∃ v', readString st'.mem (some v') = .ok text ∧
          Piece (bytes "\r\n" ++ []) st'.mem v' e' := by
        split at htext
        · exact ⟨v + 1, htext, hvaluePiece.mono (Nat.le_succ v) hlt'⟩
        · exact ⟨v, htext, hvaluePiece⟩
      intro c hc
      obtain ⟨hc0, hfree⟩ := (hv'.readString htext').2 c hc
      simp only [bytes_crlf, List.append_nil, List.mem_cons, List.not_mem_nil, or_false]
        at hfree ⊢
      grind

/-- What `headers_set` stores of a name and a value. -/
theorem isField_lower {name value : List UInt8} (hname : name ≠ [])
    (hclean : ∀ c ∈ name, c ∉ [0, 10, 13, 32, 58]) (hvalue : ∀ c ∈ value, c ∉ [0, 10, 13]) :
    IsField { name := name.map tolower, value := value } := by
  refine ⟨by simpa using hname, ?_, ?_, hvalue⟩
  · intro c hc
    obtain ⟨d, hd, rfl⟩ := List.mem_map.mp hc
    exact tolower_notMem d (hclean d hd)
  · intro c hc
    obtain ⟨d, -, rfl⟩ := List.mem_map.mp hc
    exact tolower_not_upper d

theorem isField_headersSet {name value : List UInt8} (hname : name ≠ [])
    (hclean : ∀ c ∈ name, c ∉ [0, 10, 13, 32, 58]) (hvalue : ∀ c ∈ value, c ∉ [0, 10, 13])
    (hfields : ∀ field ∈ headers.fields, IsField field) :
    ∀ field ∈ (headersSet headers (some name) (some value)).fields, IsField field := by
  intro field hfield
  rcases List.mem_append.mp hfield with hold | hnew
  · exact hfields field hold
  · rw [List.mem_singleton.mp hnew]
    exact isField_lower hname hclean hvalue

/-- The header loop stores fields only. By induction on the number of iterations; what the
offset points at does not matter, for the line is what `strtok` has cut off. -/
theorem parseHeaders_fields {fuel : ℕ} (hfields : ∀ field ∈ headers.fields, IsField field)
    (h : parseHeaders fuel offset headers st = .ok (offset', headers', st')) :
    ∀ field ∈ headers'.fields, IsField field := by
  induction fuel generalizing offset headers st with
  | zero => cases h
  | succ fuel ih =>
    rcases parseHeaders_cases h with ⟨rfl, -, -⟩ | ⟨_, _, _, _, _, _, _, hline, hheader, hrest⟩
    · exact hfields
    · obtain ⟨e, -, hpiece, -, -⟩ := piece_of_strtok hline
      obtain ⟨name, value, rfl, hname, hclean, hvalue⟩ := parseHeader_stored hpiece hheader
      have hstored := isField_headersSet hname hclean hvalue hfields
      rcases hrest with hloop | ⟨-, rfl, -⟩
      · exact ih hstored hloop
      · exact hstored

end Header

/-! ## The start line -/

/-- A token of the start line is a word. -/
theorem isWord_of_piece {mem : Memory} {p e : ℕ} {word : List UInt8} (hlt : p < e)
    (hpiece : Piece (bytes "\r\n" ++ bytes " ") mem p e)
    (hread : readString mem (some p) = .ok word) : IsWord word := by
  obtain ⟨hlength, hclean⟩ := hpiece.readString hread
  refine ⟨List.ne_nil_of_length_pos (by omega), ?_⟩
  intro c hc
  obtain ⟨hc0, hfree⟩ := hclean c hc
  simp only [bytes_crlf, bytes_space, List.cons_append, List.nil_append, List.mem_cons,
    List.not_mem_nil, or_false] at hfree ⊢
  grind

theorem parseStartLine_isWord {st st' : CState} {method path : List UInt8} {offset : ℕ}
    (h : parseStartLine st = .ok (method, path, offset, st')) : IsWord method ∧ IsWord path := by
  unfold parseStartLine at h
  obtain ⟨⟨line, st1⟩, hline, h1⟩ := bind_eq_ok.mp h
  obtain ⟨text, htext, h2⟩ := bind_eq_ok.mp h1
  obtain ⟨⟨first, st2⟩, hfirst, h3⟩ := bind_eq_ok.mp h2
  obtain ⟨⟨second, st3⟩, hsecond, h4⟩ := bind_eq_ok.mp h3
  obtain ⟨⟨third, st4⟩, hthird, h5⟩ := bind_eq_ok.mp h4
  obtain ⟨word1, hread1, h6⟩ := bind_eq_ok.mp h5
  obtain ⟨word2, hread2, h7⟩ := bind_eq_ok.mp h6
  clear h h1 h2 h3 h4 h5 h6
  cases h7
  -- all three have been read
  obtain ⟨line, rfl⟩ := readString_isSome htext
  obtain ⟨first, rfl⟩ := readString_isSome hread1
  obtain ⟨second, rfl⟩ := readString_isSome hread2
  obtain ⟨stop, -, hpiece, -, -⟩ := piece_of_strtok hline
  obtain ⟨e1, q1, -, hlt1, hle1, hword1, hsaved1, hrest1, -⟩ :=
    hpiece.strtok_some rfl (by decide) hfirst
  obtain ⟨e2, q2, hq, hlt2, hle2, hword2, hsaved2, -, -⟩ :=
    hrest1.strtok_some (s := none) hsaved1 (by decide) hsecond
  -- later words are cut off behind the earlier ones
  have hkept1 := (hword1.strtok (s := none) hsaved1 hle1 hsecond).strtok (s := none) hsaved2
    (by omega) hthird
  have hkept2 := hword2.strtok (s := none) hsaved2 hle2 hthird
  exact ⟨isWord_of_piece hlt1 hkept1 hread1, isWord_of_piece hlt2 hkept2 hread2⟩

/-- **The normal form** of everything that `request_parse` returns, for any buffer. -/
theorem normalForm_of_requestParse {buffer : Memory} {request : Request}
    (h : requestParse buffer = .ok request) : NormalForm request := by
  unfold requestParse at h
  obtain ⟨⟨method, path, offset, st⟩, hstart, h⟩ := bind_eq_ok.mp h
  obtain ⟨⟨offset', headers, st'⟩, hheaders, h⟩ := bind_eq_ok.mp h
  obtain ⟨⟨body, st''⟩, hbody, h⟩ := bind_eq_ok.mp h
  obtain ⟨hmethod, hpath⟩ := parseStartLine_isWord hstart
  have hfields := parseHeaders_fields (by simp [headersCreate]) hheaders
  cases body with
  | none =>
    -- nothing is left for a body
    cases h
    exact ⟨hmethod, hpath, hfields, fun _ hc => nomatch hc⟩
  | some p =>
    -- no delimiter, so the body goes up to the next NUL
    obtain ⟨text, hread, h⟩ := bind_eq_ok.mp h
    cases h
    obtain ⟨e, -, hpiece, -, -⟩ := piece_of_strtok hbody
    exact ⟨hmethod, hpath, hfields, fun c hc => ((hpiece.readString hread).2 c hc).1⟩

/-! ## Rendering -/

/-- The text of a request around its rendered headers. -/
def Request.render (request : Request) (version headers : List UInt8) : List UInt8 :=
  request.method ++ bytes " " ++ request.path ++ bytes " " ++ version ++ bytes "\r\n" ++ headers ++
    bytes "\r\n" ++ request.body

/-- The line that `headers_to_string` writes for a field. -/
def IsField.headLine {field : Header} (h : IsField field) : HeadLine where
  name := field.name
  rest := 32 :: field.value
  name_ne := h.name_ne
  name_clean := h.name_clean
  rest_ne := List.cons_ne_nil _ _
  rest_clean := List.forall_mem_cons.mpr ⟨by decide, h.value_clean⟩

theorem IsField.text_headLine {field : Header} (h : IsField field) :
    h.headLine.text ++ bytes "\r\n" = headerLine field := by
  simp [headLine, HeadLine.text, headerLine, bytes_colon_space]

/-- A name in lower case is stored as it is. -/
theorem IsField.stored_headLine {field : Header} (h : IsField field) :
    h.headLine.stored = field := by
  have hname : field.name.map tolower = field.name.map id := by
    apply List.map_congr_left
    exact fun c hc => if_neg (h.name_lower c hc)
  simp [headLine, HeadLine.stored, HeadLine.value, hname]

/-- The lines of fields, rendered together. -/
theorem headers_pmap_headLine (fields : List Header) (h : ∀ field ∈ fields, IsField field) :
    RequestHead.headers (fields.pmap (fun _ hfield => IsField.headLine hfield) h) =
      fields.flatMap headerLine := by
  induction fields with
  | nil => rfl
  | cons field fields ih =>
    have hfirst := (h field List.mem_cons_self).text_headLine
    have hrest := ih (fun other hother => h other (List.mem_cons_of_mem _ hother))
    simp only [RequestHead.headers, List.pmap_cons, List.flatMap_cons] at hrest ⊢
    rw [hrest, hfirst]

section Render

variable {request : Request} {version rendered : List UInt8}

/-- The request as a text with header lines. -/
def NormalForm.head (h : NormalForm request) (hversion : IsWord version) : RequestHead where
  method := request.method
  path := request.path
  more := 32 :: version
  lines := request.headers.fields.pmap (fun _ hfield => IsField.headLine hfield) h.fields
  body := request.body
  method_ne := h.method.1
  method_clean := h.method.2
  path_ne := h.path.1
  path_clean := h.path.2
  more_space := fun _ hc => (Option.some.inj hc).symm
  more_clean := by
    refine List.forall_mem_cons.mpr ⟨by decide, fun c hc hend => ?_⟩
    apply hversion.2 c hc
    exact List.mem_append_left [32] hend
  body_clean := h.body

theorem NormalForm.stored_head (h : NormalForm request) (hversion : IsWord version) :
    (h.head hversion).lines.map HeadLine.stored = request.headers.fields := by
  simp [head, List.map_pmap, IsField.stored_headLine]

theorem NormalForm.text_head (h : NormalForm request) (hversion : IsWord version)
    (hrendered : headersToString request.headers = .ok rendered) :
    (h.head hversion).text = request.render version rendered := by
  have hlines : RequestHead.headers (h.head hversion).lines = rendered := by
    rw [headersToString_ok hrendered]
    exact headers_pmap_headLine _ h.fields
  rw [RequestHead.text, hlines, Request.render]
  simp [head, bytes_space]

/-- A request in normal form with a header is read back from its rendering. -/
theorem NormalForm.requestParse_text (h : NormalForm request) (hversion : IsWord version)
    (hne : request.headers.fields ≠ []) (hrendered : headersToString request.headers = .ok rendered)
    {bufferSize : ℕ} (hfits : (request.render version rendered).length < bufferSize) :
    requestParse (receiveBuffer bufferSize (request.render version rendered)) = .ok request := by
  have htext := h.text_head hversion hrendered
  have hstored := h.stored_head hversion
  have hlines : (h.head hversion).lines ≠ [] := by
    intro hnil
    rw [hnil] at hstored
    exact hne hstored.symm
  rw [← htext] at hfits ⊢
  rw [RequestHead.requestParse_text _ hlines hfits, hstored]
  rfl

/-- **Parse, render, parse**: what `request_parse` accepts is in normal form, and where a
header is stored, the request is read back from its rendering. -/
theorem requestParse_normalForm {buffer : Memory} (h : requestParse buffer = .ok request) :
    NormalForm request ∧
    ∀ version rendered bufferSize, IsWord version → request.headers.fields ≠ [] →
      headersToString request.headers = .ok rendered →
      (request.render version rendered).length < bufferSize →
      requestParse (receiveBuffer bufferSize (request.render version rendered)) = .ok request := by
  have hnormal := normalForm_of_requestParse h
  refine ⟨hnormal, ?_⟩
  intro version rendered bufferSize hversion hne hrendered hfits
  exact hnormal.requestParse_text hversion hne hrendered hfits

end Render

/-- Behind a start line with a blank too many and without its CR, the offset points into the
first header line. -/
def misaligned : Memory := receiveBuffer 64 (bytes "GET /  X\nHost: a\r\nB C:d\r\n\r\nb")

def misalignedRequest : Request where
  method := bytes "GET"
  path := bytes "/"
  headers := { fields := [{ name := bytes "ost", value := bytes "a" },
                          { name := bytes "b", value := bytes "C:d" }] }
  body := bytes "b"

theorem requestParse_normalForm_misaligned : NormalForm misalignedRequest ∧
    requestParse (receiveBuffer 64
      (misalignedRequest.render (bytes "HTTP/1.1") (bytes "ost: a\r\nb: C:d\r\n"))) =
        .ok misalignedRequest := by
  have hparse : requestParse misaligned = .ok misalignedRequest := by decide +kernel
  obtain ⟨hnormal, hread⟩ := requestParse_normalForm hparse
  refine ⟨hnormal, hread _ _ 64 ⟨by decide, ?_⟩ (by decide) (by decide) (by decide)⟩
  exact List.all_iff_forall_prop.mp (by decide)

end NetworkServers.Http
