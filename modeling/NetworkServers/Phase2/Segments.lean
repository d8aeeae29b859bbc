import NetworkServers.Library.HttpMessage
import NetworkServers.Library.Splitting
import NetworkServers.Library.Utf8Decoding
import NetworkServers.Phase2.Responses

/-!
# Requests and Data Events

The server takes every data event of a socket for one whole request, wherever the network
has cut the bytes. So the router is given the requests that were sent only if every event
is one of them; a request in two events, or two in one, is parsed as something else.
-/

namespace NetworkServers.Phase2

open NetworkServers.Js NetworkServers.HttpMessage

/-! ## Requests on the wire -/

/-- What a data event is parsed to, `none` where `parse` throws:
`parse(data.toString())`. -/
def parseEvent (p : Platform) (data : List UInt8) : Option HTTPContext :=
  parse p (utf8Decode data)

/-- A request as a client sends it. -/
structure WireRequest where
  method : List UInt8
  target : List UInt8
  fields : List (List UInt8)
  body : List UInt8
  method_ne : method ≠ []
  method_visible : ∀ c ∈ method, 33 ≤ c ∧ c ≤ 126
  target_ne : target ≠ []
  target_visible : ∀ c ∈ target, 33 ≤ c ∧ c ≤ 126
  fields_ne : ∀ line ∈ fields, line ≠ []
  fields_line : ∀ line ∈ fields, 13 ∉ line ∧ 10 ∉ line

namespace WireRequest

/-- The request line. -/
def startLine (r : WireRequest) : List UInt8 :=
  r.method ++ 32 :: (r.target ++ 32 :: utf8Encode (js "HTTP/1.1"))

/-- The request line and the field lines. -/
def lines (r : WireRequest) : List (List UInt8) := r.startLine :: r.fields

/-- The bytes of a request. -/
def bytes (r : WireRequest) : List UInt8 := r.lines.flatMap (· ++ crlf) ++ (crlf ++ r.body)

theorem not_mem_startLine (r : WireRequest) {c : UInt8} (hc : c < 32) : c ∉ r.startLine := by
  have hvisible : ∀ {word : List UInt8}, (∀ c ∈ word, 33 ≤ c ∧ c ≤ 126) → c ∉ word :=
    fun h hmem => absurd (UInt8.lt_of_le_of_lt (h c hmem).1 hc) (by decide)
  have hspace : c ≠ 32 := UInt8.ne_of_lt hc
  have hversion : ∀ d ∈ utf8Encode (js "HTTP/1.1"), 33 ≤ d ∧ d ≤ 126 :=
    List.all_iff_forall_prop.mp (by decide)
  simp only [startLine, List.mem_append, List.mem_cons, not_or]
  exact ⟨hvisible r.method_visible, hspace, hvisible r.target_visible, hspace, hvisible hversion⟩

theorem not_mem_lines (r : WireRequest) : ∀ line ∈ r.lines, 13 ∉ line ∧ 10 ∉ line :=
  List.forall_mem_cons.mpr
    ⟨⟨r.not_mem_startLine (by decide), r.not_mem_startLine (by decide)⟩, r.fields_line⟩

end WireRequest

/-! ## The lines of a text -/

section Lines

variable {line : List UInt8}

theorem not_mem_utf8Decode {c : UInt8} (hc : c < 0x80) (h : c ∉ line) :
    c.toNat.toUInt16 ∉ utf8Decode line := by
  intro hmem
  have htoNat : c.toNat.toUInt16.toNat = c.toNat :=
    UInt16.toNat_ofNat_of_lt (Nat.lt_trans c.toNat_lt (by decide))
  have hlow : c.toNat.toUInt16 < 0x80 := by
    show c.toNat.toUInt16.toNat < 0x80
    rw [htoNat]
    exact hc
  obtain ⟨b, hb, heq⟩ := mem_of_mem_utf8Decode hlow hmem
  obtain rfl : c = b := UInt8.toNat_inj.mp (htoNat.symm.trans heq)
  exact h hb

/-- A line of bytes is a line of the text. -/
theorem split_crlf (h : 13 ∉ line) (rest : List UInt8) :
    split (js "\r\n") (utf8Decode (line ++ crlf ++ rest)) =
      utf8Decode line :: split (js "\r\n") (utf8Decode rest) := by
  have htext : utf8Decode (line ++ crlf ++ rest) =
      utf8Decode line ++ ([13, 10] ++ utf8Decode rest) := by
    rw [List.append_assoc]
    show utf8Decode (line ++ 13 :: 10 :: rest) = _
    rw [utf8Decode_append _ (by decide), utf8Decode_cons_ascii (by decide),
      utf8Decode_cons_ascii (by decide)]
    rfl
  rw [htext]
  exact split_append (not_mem_utf8Decode (by decide) h) _

theorem split_crlf_flatMap {lines : List (List UInt8)} (h : ∀ line ∈ lines, 13 ∉ line)
    (rest : List UInt8) : split (js "\r\n") (utf8Decode (lines.flatMap (· ++ crlf) ++ rest)) =
      lines.map utf8Decode ++ split (js "\r\n") (utf8Decode rest) := by
  induction lines with
  | nil => rfl
  | cons line lines ih =>
    obtain ⟨hline, hlines⟩ := List.forall_mem_cons.mp h
    rw [List.flatMap_cons, List.append_assoc, split_crlf hline, ih hlines]
    rfl

/-- The header lines go up to an empty line. -/
theorem headerLines_append {xs : List JsString} (ys : List JsString) (hxs : ∀ x ∈ xs, x ≠ []) :
    headerLines (xs ++ [] :: ys) = xs ∧ bodyLines (xs ++ [] :: ys) = ys := by
  have hindex : (xs ++ [] :: ys).findIdx? (· = []) = some xs.length := by
    have hnone : xs.findIdx? (· = []) = none := by simpa using hxs
    rw [List.findIdx?_append, hnone, List.findIdx?_cons]
    simp
  rw [headerLines, bodyLines, hindex]
  exact ⟨List.take_left, by simp⟩

/-- Without anything behind an empty line, the last line is left out, empty or not. -/
theorem headerLines_last {xs : List JsString} (hxs : ∀ x ∈ xs, x ≠ []) (y : JsString) :
    headerLines (xs ++ [y]) = xs := by
  by_cases hy : y = []
  · rw [hy]
    exact (headerLines_append _ hxs).1
  · have hnone : (xs ++ [y]).findIdx? (· = []) = none := by
      rw [List.findIdx?_eq_none_iff]
      intro x hx
      rcases List.mem_append.mp hx with hx | hx
      · simpa using hxs x hx
      · simpa [List.mem_singleton.mp hx] using hy
    rw [headerLines, hnone]
    exact List.dropLast_concat

/-- Without an empty line, all lines are the body. -/
theorem bodyLines_all {xs : List JsString} (hxs : ∀ x ∈ xs, x ≠ []) : bodyLines xs = xs := by
  have hnone : xs.findIdx? (· = []) = none := by simpa using hxs
  rw [bodyLines, hnone]

end Lines

/-! ## What is parsed -/

section Parsed

variable {p : Platform} {text : JsString} {ctx : HTTPContext}

/-- The parts of a context, from the lines of the text. -/
theorem parse_parts (h : parse p text = some ctx) :
    ctx.method = p.toUpperCase (keyValue (js " ") ((split (js "\r\n") text).headD [])).1 ∧
      (headerEntries p text).foldlM addHeader Dict.empty = some ctx.headers ∧
      ctx.body = (js "\r\n").intercalate (bodyLines (split (js "\r\n") text).tail) := by
  obtain ⟨headers, hheaders, h⟩ := Option.bind_eq_some_iff.mp h
  obtain ⟨host, -, h⟩ := Option.bind_eq_some_iff.mp h
  obtain ⟨path, -, h⟩ := Option.bind_eq_some_iff.mp h
  obtain rfl := Option.some.inj h
  exact ⟨rfl, hheaders, rfl⟩

/-- The values of a header, from the lines with its name. -/
theorem headers_of_parse (h : parse p text = some ctx) (key : JsString) : ctx.headers.get? key =
    moreValues none (((headerEntries p text).filter fun e => e.1 = key).map Prod.snd) := by
  have hempty : ∀ key ∈ objectPrototype,
      (Dict.empty : Dict JsString (List (Option JsString))).get? key = none := fun _ _ => rfl
  rcases addHeaders_spec (headerEntries p text) hempty with ⟨-, hnone⟩ | ⟨-, headers, hsome, hget⟩
  · rw [(parse_parts h).2.1] at hnone
    cases hnone
  · obtain rfl := Option.some.inj ((parse_parts h).2.1.symm.trans hsome)
    exact hget key

/-- Every header line has left a value under its name. -/
theorem length_filter_entries (h : parse p text = some ctx) (key : JsString) :
    ((headerEntries p text).filter fun e => e.1 = key).length =
      ((ctx.headers.get? key).getD []).length := by
  rw [headers_of_parse h key, moreValues]
  split
  · rename_i hnil
    rw [List.map_eq_nil_iff.mp hnil]
    rfl
  · simp

/-- The URL is made of the target and the host. -/
theorem url_of_parse (h : parse p text = some ctx) :
    p.newURL (rawPath text) (js "http://" ++ requestHost p text) = some ctx.path := by
  have hhost := hostOf_eq (headers_of_parse h (js "host"))
  obtain ⟨headers, hheaders, h⟩ := Option.bind_eq_some_iff.mp h
  obtain ⟨host, hhost', h⟩ := Option.bind_eq_some_iff.mp h
  obtain ⟨path, hpath, h⟩ := Option.bind_eq_some_iff.mp h
  obtain rfl := Option.some.inj h
  rw [hhost] at hhost'
  split at hhost'
  · rw [Option.some.inj hhost']
    exact hpath
  · cases hhost'

/-- A request is parsed to its method and all its field lines. -/
theorem parse_request (r : WireRequest) (body : List UInt8) :
    split (js "\r\n") (utf8Decode (r.lines.flatMap (· ++ crlf) ++ (crlf ++ body))) =
      utf8Decode r.startLine :: (r.fields.map utf8Decode ++
        [] :: split (js "\r\n") (utf8Decode body)) := by
  rw [split_crlf_flatMap fun line h => (r.not_mem_lines line h).1]
  have hbody := @split_crlf [] (by simp) body
  rw [List.nil_append] at hbody
  rw [hbody]
  rfl

theorem fields_text_ne (r : WireRequest) : ∀ x ∈ r.fields.map utf8Decode, x ≠ [] := by
  intro x hx
  obtain ⟨line, hline, rfl⟩ := List.mem_map.mp hx
  exact utf8Decode_ne_nil (r.fields_ne line hline)

theorem fields_return_ne (r : WireRequest) :
    ∀ x ∈ r.fields.map utf8Decode ++ [utf8Decode [13]], x ≠ [] := by
  intro x hx
  rcases List.mem_append.mp hx with hfield | hlast
  · exact fields_text_ne r x hfield
  · rw [List.mem_singleton.mp hlast]
    exact utf8Decode_ne_nil (List.cons_ne_nil 13 [])

/-- The body of what is parsed is all the text behind the empty line. -/
theorem body_of_parse {r : WireRequest} {body : List UInt8}
    (h : parseEvent p (r.lines.flatMap (· ++ crlf) ++ (crlf ++ body)) = some ctx) :
    ctx.body = utf8Decode body := by
  rw [(parse_parts h).2.2, parse_request, List.tail_cons,
    (headerLines_append _ (fields_text_ne r)).2]
  exact intercalate_split 13 [10] _

end Parsed

/-! ## Where a request can be cut -/

section Cuts

variable {p : Platform} {r : WireRequest} {ctx : HTTPContext} {e x : List UInt8}

/-- A cut through lines is in front of the last byte of a line end, or behind all lines. -/
theorem cut_lines {lines : List (List UInt8)} {rest : List UInt8}
    (h : e ++ x = lines.flatMap (· ++ crlf) ++ rest) :
    (∃ before line after part, lines = before ++ line :: after ∧
      e = before.flatMap (· ++ crlf) ++ part ∧ part <+: line ++ [13]) ∨
    ∃ part, e = lines.flatMap (· ++ crlf) ++ part ∧ part ++ x = rest := by
  induction lines generalizing e with
  | nil => exact .inr ⟨e, rfl, h⟩
  | cons line lines ih =>
    have hline : e ++ x = (line ++ [13]) ++ 10 :: (lines.flatMap (· ++ crlf) ++ rest) := by
      rw [h, List.flatMap_cons, List.append_assoc, List.append_assoc, List.append_assoc]
      rfl
    -- the cut is inside of the first line up to its CR, or behind that
    rcases List.append_eq_append_iff.mp hline with ⟨inner, hinner, -⟩ | ⟨outer, he, hrest⟩
    · exact .inl ⟨[], line, lines, e, rfl, rfl, ⟨inner, hinner.symm⟩⟩
    cases outer with
    | nil =>
      have hwhole : e <+: line ++ [13] := ⟨[], by rw [he, List.append_nil, List.append_nil]⟩
      exact .inl ⟨[], line, lines, e, rfl, rfl, hwhole⟩
    | cons c outer =>
      obtain ⟨rfl, htail⟩ : 10 = c ∧ lines.flatMap (· ++ crlf) ++ rest = outer ++ x :=
        List.cons.inj hrest
      have hcut : e = line ++ crlf ++ outer := by
        rw [he, List.append_assoc, List.append_assoc]
        rfl
      rcases ih htail.symm with ⟨before, l, after, part, hlines, houter, hpart⟩ |
        ⟨part, houter, hpart⟩
      · refine .inl ⟨line :: before, l, after, part, by rw [hlines]; rfl, ?_, hpart⟩
        rw [hcut, houter, List.flatMap_cons, ← List.append_assoc]
      · refine .inr ⟨part, ?_, hpart⟩
        rw [hcut, houter, List.flatMap_cons, ← List.append_assoc]

/-- Without header lines there is no host, and `parse` throws. -/
theorem parse_no_entries (h : headerEntries p (utf8Decode e) = []) : parseEvent p e = none := by
  rw [← Option.not_isSome_iff_eq_none]
  intro hsome
  obtain ⟨entry, hmem, -⟩ := ((parse_isSome_iff p _).mp hsome).host
  rw [h] at hmem
  exact absurd hmem List.not_mem_nil

/-- The lines of a piece that ends inside a line. -/
theorem split_piece {before : List (List UInt8)} {part : List UInt8}
    (hbefore : ∀ line ∈ before, 13 ∉ line) (hpart : 10 ∉ part) :
    split (js "\r\n") (utf8Decode (before.flatMap (· ++ crlf) ++ part)) =
      before.map utf8Decode ++ [utf8Decode part] := by
  have hfeed : 10 ∈ js "\r\n" := by decide
  have hone : split (js "\r\n") (utf8Decode part) = [utf8Decode part] :=
    split_of_not_mem hfeed (not_mem_utf8Decode (c := 10) (by decide) hpart)
  rw [split_crlf_flatMap hbefore, hone]

/-- A piece that ends inside a line is parsed without the header of that line. -/
theorem parse_cut_line (hr : parseEvent p r.bytes = some ctx) {before after : List (List UInt8)}
    {line part : List UInt8} (hlines : r.lines = before ++ line :: after)
    (he : e = before.flatMap (· ++ crlf) ++ part) (hpart : part <+: line ++ [13]) :
    parseEvent p e ≠ some ctx := by
  have hbefore : ∀ l ∈ before, 13 ∉ l := fun l hl => by
    refine (r.not_mem_lines l ?_).1
    rw [hlines]
    exact List.mem_append_left _ hl
  have hfeed : 10 ∉ part := by
    intro hmem
    rcases List.mem_append.mp (hpart.subset hmem) with hline | hreturn
    · refine absurd hline (r.not_mem_lines line ?_).2
      rw [hlines]
      exact List.mem_append_right _ List.mem_cons_self
    · exact absurd (List.mem_singleton.mp hreturn) (by decide)
  have hsplit := split_piece hbefore hfeed
  rw [← he] at hsplit
  cases before with
  | nil =>
    -- the cut is in the request line
    have hnone : headerEntries p (utf8Decode e) = [] := by
      rw [headerEntries, hsplit]
      rfl
    rw [parse_no_entries hnone]
    exact (Option.some_ne_none ctx).symm
  | cons start before =>
    intro hparse
    have hfields : r.fields = before ++ line :: after := (List.cons.inj hlines).2
    have hne : ∀ l ∈ before.map utf8Decode, l ≠ [] := by
      intro l hl
      refine fields_text_ne r l ?_
      rw [hfields, List.map_append]
      exact List.mem_append_left _ hl
    have hcut : headerEntries p (utf8Decode e) = (before.map utf8Decode).map (headerEntry p) := by
      rw [headerEntries, hsplit]
      exact congrArg _ (headerLines_last hne _)
    have hall : headerEntries p (utf8Decode r.bytes) =
        (r.fields.map utf8Decode).map (headerEntry p) := by
      rw [headerEntries, WireRequest.bytes, parse_request]
      exact congrArg _ (headerLines_append _ (fields_text_ne r)).1
    -- the values under the name of the cut line are counted
    let key := (headerEntry p (utf8Decode line)).1
    have hcount := (length_filter_entries hr key).trans (length_filter_entries hparse key).symm
    rw [hall, hcut, hfields, List.map_append, List.map_append, List.filter_append,
      List.length_append, List.map_cons, List.map_cons,
      List.filter_cons_of_pos (by simp [key]), List.length_cons] at hcount
    exact absurd hcount (by omega)

/-- The lines of the pieces that end inside the empty line. -/
theorem split_fields {part : List UInt8} (hpart : 10 ∉ part) :
    split (js "\r\n") (utf8Decode (r.lines.flatMap (· ++ crlf) ++ part)) =
      utf8Decode r.startLine :: (r.fields.map utf8Decode ++ [utf8Decode part]) :=
  split_piece (fun line h => (r.not_mem_lines line h).1) hpart

/-- The pieces of a request behind a cut that does not change what is parsed. -/
inductive Idle (r : WireRequest) : List UInt8 → Prop
  /-- The empty line in front of an empty body. -/
  | emptyLine : r.body = [] → Idle r crlf
  /-- Nothing, or what follows in a malformed character. -/
  | malformed {body tail : List UInt8} : r.body = body ++ tail →
      utf8Decode body = utf8Decode r.body → Idle r tail
  /-- All from the last byte of the empty line, in front of a body that repeats the field
  lines. -/
  | repeated : utf8Decode r.body = (js "\r\n").intercalate (r.fields.map utf8Decode ++ [[13]]) →
      Idle r (10 :: r.body)

/-- Only such a cut keeps what is parsed. -/
theorem idle_of_parse (hr : parseEvent p r.bytes = some ctx) (he : parseEvent p e = some ctx)
    (h : e ++ x = r.bytes) : Idle r x := by
  rcases cut_lines h with ⟨before, line, after, part, hlines, hcut, hpart⟩ | ⟨part, hcut, hpart⟩
  · exact absurd he (parse_cut_line hr hlines hcut hpart)
  have hbody := (parse_parts he).2.2.symm.trans (body_of_parse hr)
  match part with
  | [] =>
    -- without the empty line the body that is parsed is empty
    have hcutBody := (headerLines_append [] (fields_text_ne r)).2
    rw [hcut, split_fields List.not_mem_nil, List.tail_cons] at hbody
    have hnil : [] = utf8Decode r.body := (congrArg _ hcutBody).symm.trans hbody
    have hempty : r.body = [] := by
      by_contra hne
      exact utf8Decode_ne_nil hne hnil.symm
    have hx : x = crlf ++ r.body := hpart
    rw [hx, hempty]
    exact .emptyLine hempty
  | [c] =>
    -- with a bare CR in its place, the body is all lines
    obtain ⟨rfl, hx⟩ : c = 13 ∧ x = 10 :: r.body := List.cons.inj hpart
    rw [hcut, split_fields (by decide), List.tail_cons, bodyLines_all (fields_return_ne r)] at hbody
    rw [hx]
    exact .repeated hbody.symm
  | c :: d :: body =>
    -- behind the empty line the cut is in the body
    obtain ⟨rfl, htail⟩ : c = 13 ∧ d :: body ++ x = 10 :: r.body := List.cons.inj hpart
    obtain ⟨rfl, hbody'⟩ : d = 10 ∧ body ++ x = r.body := List.cons.inj htail
    have hpiece : e = r.lines.flatMap (· ++ crlf) ++ (crlf ++ body) := hcut
    rw [hpiece] at he
    exact .malformed hbody'.symm ((body_of_parse he).symm.trans (body_of_parse hr))

/-- What is parsed is the request line, the header lines and the body. -/
theorem parse_lines {text : JsString} {rest : List JsString}
    (hsplit : split (js "\r\n") text = utf8Decode r.startLine :: rest)
    (hheaders : headerLines rest = r.fields.map utf8Decode)
    (hbody : (js "\r\n").intercalate (bodyLines rest) = utf8Decode r.body) :
    parse p text = parseEvent p r.bytes := by
  have hall := headerLines_append (split (js "\r\n") (utf8Decode r.body)) (fields_text_ne r)
  have hjoin : (js "\r\n").intercalate (split (js "\r\n") (utf8Decode r.body)) =
      utf8Decode r.body := intercalate_split 13 [10] _
  unfold parseEvent parse
  rw [WireRequest.bytes, parse_request, hsplit]
  dsimp only [List.headD_cons, List.tail_cons]
  rw [hheaders, hbody, hall.1, hall.2, hjoin]

/-- Such a cut keeps what is parsed. -/
theorem parse_of_idle (h : e ++ x = r.bytes) (hx : Idle r x) :
    parseEvent p e = parseEvent p r.bytes := by
  -- the event is known from what is cut off
  have hcancel : ∀ {piece}, piece ++ x = r.bytes → e = piece := fun hpiece =>
    List.append_cancel_right (h.trans hpiece.symm)
  cases hx with
  | emptyLine hempty =>
    have hpiece : e = r.lines.flatMap (· ++ crlf) ++ [] := hcancel (by
      rw [WireRequest.bytes, hempty, List.append_nil, List.append_nil])
    have hcut := headerLines_append [] (fields_text_ne r)
    rw [hpiece]
    apply parse_lines (split_fields List.not_mem_nil) hcut.1
    rw [hempty]
    exact congrArg _ hcut.2
  | @malformed body _ hbody heq =>
    have hpiece : e = r.lines.flatMap (· ++ crlf) ++ (crlf ++ body) := hcancel (by
      rw [WireRequest.bytes, hbody, List.append_assoc, List.append_assoc])
    have hcut := headerLines_append (split (js "\r\n") (utf8Decode body)) (fields_text_ne r)
    rw [hpiece]
    apply parse_lines (parse_request r body) hcut.1
    rw [hcut.2, ← heq]
    exact intercalate_split 13 [10] _
  | repeated hbody =>
    have hpiece : e = r.lines.flatMap (· ++ crlf) ++ [13] := hcancel (by
      rw [WireRequest.bytes, List.append_assoc]
      rfl)
    rw [hpiece]
    apply parse_lines (split_fields (by decide)) (headerLines_last (fields_text_ne r) _)
    rw [bodyLines_all (fields_return_ne r), hbody]
    rfl

/-- What is behind such a cut begins in the middle of something. -/
theorem Idle.head {b : UInt8} (h : Idle r (b :: x)) : b = 13 ∨ b = 10 ∨ isContinuation b := by
  cases h with
  | emptyLine => exact .inl rfl
  | @malformed body _ hbody heq =>
    refine .inr (.inr (by_contra fun hnot => ?_))
    rw [hbody, utf8Decode_append body (Bool.eq_false_iff.mpr hnot)] at heq
    exact utf8Decode_ne_nil (List.cons_ne_nil b x) (List.self_eq_append_right.mp heq)
  | repeated => exact .inr (.inl rfl)

/-- An event that goes on behind the request has another body. -/
theorem parse_longer (hr : parseEvent p r.bytes = some ctx) {b : UInt8}
    (hb : isContinuation b = false) (rest : List UInt8) :
    parseEvent p (r.bytes ++ b :: rest) ≠ some ctx := by
  intro h
  have hbytes : r.bytes ++ b :: rest =
      r.lines.flatMap (· ++ crlf) ++ (crlf ++ (r.body ++ b :: rest)) := by
    rw [WireRequest.bytes, List.append_assoc, List.append_assoc]
  rw [hbytes] at h
  have hbody := (body_of_parse hr).symm.trans (body_of_parse h)
  rw [utf8Decode_append _ hb] at hbody
  exact utf8Decode_ne_nil (List.cons_ne_nil b rest) (List.self_eq_append_right.mp hbody)

end Cuts

/-! ## Where an event can begin -/

section Methods

variable {p : Platform} {ctx : HTTPContext}

/-- Upper case leaves characters alone that have no case: line ends and U+FFFD, which
stands for malformed bytes. -/
def KeepsCaseless (p : Platform) : Prop :=
  ∀ text : JsString, ∀ c ∈ text, c = 13 ∨ c = 10 ∨ c = 0xFFFD → c ∈ p.toUpperCase text

theorem asciiUpper_visible :
    ∀ n < 127, 33 ≤ n → 33 ≤ asciiUpper n.toUInt16 ∧ asciiUpper n.toUInt16 ≤ 126 := by decide

theorem toUInt16_ascii : ∀ n < 128, n.toUInt16 < 128 := by decide

/-- A word of visible characters, as the method of a request is. -/
def VisibleWord (word : JsString) : Prop := word ≠ [] ∧ ∀ c ∈ word, 33 ≤ c ∧ c ≤ 126

/-- The method of a request is a word. -/
theorem visibleWord_method {r : WireRequest} (h : parseEvent p r.bytes = some ctx) :
    VisibleWord ctx.method := by
  have hascii : ∀ b ∈ r.method, b < 0x80 := fun b hb =>
    UInt8.lt_of_le_of_lt (r.method_visible b hb).2 (by decide)
  have hspace : 32 ∉ utf8Decode r.method := by
    apply not_mem_utf8Decode (c := 32) (by decide)
    exact fun hmem => absurd (r.method_visible 32 hmem).1 (by decide)
  have hword : (keyValue (js " ") (utf8Decode r.startLine)).1 = utf8Decode r.method := by
    rw [WireRequest.startLine, utf8Decode_append _ (by decide), utf8Decode_cons_ascii (by decide)]
    exact congrArg (·.headD []) (@split_append _ _ [] _ _ hspace _)
  -- the method consists of ASCII characters, where upper case is known
  have hmethod : ctx.method = r.method.map fun b => asciiUpper b.toNat.toUInt16 := by
    have hlow : ∀ c ∈ utf8Decode r.method, c < 128 := by
      rw [utf8Decode_ascii hascii]
      intro c hc
      obtain ⟨b, hb, rfl⟩ := List.mem_map.mp hc
      exact toUInt16_ascii _ (hascii b hb)
    rw [(parse_parts h).1, WireRequest.bytes, parse_request, List.headD_cons, hword,
      p.upper_ascii _ hlow, utf8Decode_ascii hascii, List.map_map]
    rfl
  rw [hmethod]
  refine ⟨fun hnil => r.method_ne (List.map_eq_nil_iff.mp hnil), fun c hc => ?_⟩
  obtain ⟨b, hb, rfl⟩ := List.mem_map.mp hc
  obtain ⟨hlow, hhigh⟩ := r.method_visible b hb
  exact asciiUpper_visible _ (Nat.lt_succ_of_le hhigh) hlow

/-- An event that begins inside a request has no such method. -/
theorem not_visibleWord_method (hupper : KeepsCaseless p) {b : UInt8} {rest : List UInt8}
    (hb : b = 13 ∨ b = 10 ∨ isContinuation b) (h : parseEvent p (b :: rest) = some ctx) :
    ¬VisibleWord ctx.method := by
  obtain ⟨c, text, htext, hc⟩ : ∃ c text, utf8Decode (b :: rest) = c :: text ∧
      (c = 13 ∨ c = 10 ∨ c = 0xFFFD) := by
    rcases hb with rfl | rfl | hb
    · exact ⟨13, _, utf8Decode_cons_ascii (by decide) rest, .inl rfl⟩
    · exact ⟨10, _, utf8Decode_cons_ascii (by decide) rest, .inr (.inl rfl)⟩
    · exact ⟨0xFFFD, _, utf8Decode_cons_continuation hb rest, .inr (.inr rfl)⟩
  intro hword
  have hmethod := (parse_parts h).1
  rw [htext] at hmethod
  by_cases hbreak : js "\r\n" <+: c :: text
  · -- the request line is empty
    obtain ⟨text', htext'⟩ := hbreak
    have hempty : split (js "\r\n") (c :: text) = [] :: split (js "\r\n") text' := by
      rw [← htext']
      exact split_sep 13 [10] text'
    rw [hempty] at hmethod
    exact hword.1 (hmethod.trans (p.upper_ascii [] (by simp)))
  · -- the method begins with that character
    have hspace : ¬js " " <+: c :: (split (js "\r\n") text).headD [] := by
      intro hp
      have hc32 : (32 : UInt16) = c := (List.cons_prefix_cons.mp hp).1
      rcases hc with rfl | rfl | rfl <;> exact absurd hc32 (by decide)
    rw [headD_split_cons hbreak, keyValue, headD_split_cons hspace] at hmethod
    have hmem : c ∈ ctx.method := by
      rw [hmethod]
      exact hupper _ c List.mem_cons_self hc
    have hvisible := hword.2 c hmem
    rcases hc with rfl | rfl | rfl <;> exact absurd hvisible (by decide)

end Methods

/-! ## Requests and events -/

section Stream

variable {p : Platform} {rs : List WireRequest} {es : List (List UInt8)}

/-- The requests that the router is given, if no handler throws. The first event on which
`parse` throws ends the worker. A handler that throws ends it as well, but what the handlers
do comes behind what they are given, and is left out here. -/
def routed (p : Platform) : List (List UInt8) → List HTTPContext
  | [] => []
  | data :: events =>
    match parseEvent p data with
    | none => []
    | some ctx => ctx :: routed p events

/-- An event that the router gets nothing of. -/
def Rejected (p : Platform) (data : List UInt8) : Prop := ¬Parseable p (utf8Decode data)

/-- Events that bring requests one by one, up to the first one that is rejected. Only the
request before it can be cut. -/
inductive OneByOne (p : Platform) : List WireRequest → List (List UInt8) → Prop
  | stop {rs : List WireRequest} {es : List (List UInt8)} :
      (∀ r ∈ rs.head?, Rejected p r.bytes) → (∀ e ∈ es.head?, Rejected p e) → OneByOne p rs es
  | whole {rs : List WireRequest} {es : List (List UInt8)} (r : WireRequest) :
      OneByOne p rs es → OneByOne p (r :: rs) (r.bytes :: es)
  | cut {rs : List WireRequest} {es : List (List UInt8)} {r : WireRequest} {e x : List UInt8} :
      e ++ x = r.bytes → Idle r x → (∀ r ∈ rs.head?, Rejected p r.bytes) →
      (∀ e ∈ es.head?, Rejected p e) → OneByOne p (r :: rs) (e :: es)

theorem rejected_iff {data : List UInt8} : Rejected p data ↔ parseEvent p data = none := by
  rw [Rejected, ← parse_isSome_iff, Option.not_isSome_iff_eq_none]
  rfl

theorem routed_cons {e : List UInt8} {ctx : HTTPContext} (h : parseEvent p e = some ctx) :
    routed p (e :: es) = ctx :: routed p es := by
  rw [routed, h]

theorem routed_rejected {e : List UInt8} (h : parseEvent p e = none) : routed p (e :: es) = [] := by
  rw [routed, h]

theorem routed_eq_nil_iff : routed p es = [] ↔ ∀ e ∈ es.head?, Rejected p e := by
  cases es with
  | nil => exact iff_of_true rfl fun e he => nomatch he
  | cons e es =>
    have hhead : (∀ e' ∈ (e :: es).head?, Rejected p e') ↔ Rejected p e :=
      ⟨fun h => h e rfl, fun h e' he' => Option.some.inj he' ▸ h⟩
    rw [hhead, rejected_iff]
    cases hparse : parseEvent p e with
    | none => exact iff_of_true (routed_rejected hparse) rfl
    | some ctx =>
      rw [routed_cons hparse]
      exact iff_of_false (List.cons_ne_nil _ _) (Option.some_ne_none ctx)

theorem routed_requests_eq_nil_iff :
    routed p (rs.map WireRequest.bytes) = [] ↔ ∀ r ∈ rs.head?, Rejected p r.bytes := by
  rw [routed_eq_nil_iff, List.head?_map]
  simp

theorem exists_of_routed_eq_cons {ctx : HTTPContext} {ctxs : List HTTPContext}
    (h : routed p es = ctx :: ctxs) :
    ∃ e es', es = e :: es' ∧ parseEvent p e = some ctx ∧ routed p es' = ctxs := by
  cases es with
  | nil => cases h
  | cons e es =>
    cases hparse : parseEvent p e with
    | none =>
      rw [routed_rejected hparse] at h
      cases h
    | some ctx' =>
      rw [routed_cons hparse] at h
      obtain ⟨rfl, hrest⟩ := List.cons.inj h
      exact ⟨e, es, rfl, hparse, hrest⟩

/-- A request begins with the first character of its method. -/
theorem WireRequest.exists_bytes (r : WireRequest) : ∃ b rest, r.bytes = b :: rest ∧
    isContinuation b = false := by
  obtain ⟨b, word, hword⟩ := List.exists_cons_of_ne_nil r.method_ne
  have hb := r.method_visible b (by rw [hword]; exact List.mem_cons_self)
  have hbytes : ∃ rest, r.bytes = b :: rest := by
    rw [bytes, lines, List.flatMap_cons, startLine, hword]
    exact ⟨_, rfl⟩
  obtain ⟨rest, hrest⟩ := hbytes
  refine ⟨b, rest, hrest, Bool.eq_false_iff.mpr fun hcont => ?_⟩
  simp only [isContinuation, Bool.and_eq_true, decide_eq_true_iff] at hcont
  exact absurd (UInt8.le_trans hcont.1 hb.2) (by decide)

/-- What the router is given of events one by one is what it is given of the requests. -/
theorem OneByOne.routed_eq (h : OneByOne p rs es) :
    routed p es = routed p (rs.map WireRequest.bytes) := by
  induction h with
  | stop hrs hes => rw [routed_eq_nil_iff.mpr hes, routed_requests_eq_nil_iff.mpr hrs]
  | @whole rs es r _ ih =>
    rw [List.map_cons, routed, routed, ih]
  | @cut rs es r e x hbytes hidle hrs hes =>
    rw [List.map_cons, routed, routed, parse_of_idle hbytes hidle, routed_eq_nil_iff.mpr hes,
      routed_requests_eq_nil_iff.mpr hrs]

/-- After a cut inside a request nothing more is given to the router: the next event
begins inside the request, and no method begins like that. -/
theorem routed_nil_of_cut (hupper : KeepsCaseless p) (hes : ∀ e ∈ es, e ≠ []) {r : WireRequest}
    {b : UInt8} {x : List UInt8} (hx : Idle r (b :: x))
    (hbytes : es.flatten = b :: x ++ rs.flatMap WireRequest.bytes)
    (h : routed p es = routed p (rs.map WireRequest.bytes)) : routed p es = [] := by
  cases hrouted : routed p es with
  | nil => rfl
  | cons ctx ctxs =>
    -- the first event that is routed begins with the byte behind the cut
    obtain ⟨e, es', rfl, hparse, -⟩ := exists_of_routed_eq_cons hrouted
    obtain ⟨e', _, hbytes', hparse', -⟩ := exists_of_routed_eq_cons (h.symm.trans hrouted)
    obtain ⟨b', rest, rfl⟩ := List.exists_cons_of_ne_nil (hes e List.mem_cons_self)
    obtain ⟨rfl, -⟩ := List.cons.inj hbytes
    have hmem : e' ∈ rs.map WireRequest.bytes := by
      rw [hbytes']
      exact List.mem_cons_self
    obtain ⟨r', -, rfl⟩ := List.mem_map.mp hmem
    exact absurd (visibleWord_method hparse') (not_visibleWord_method hupper hx.head hparse)

/-- Only of events one by one the router is given what it is given of the requests. -/
theorem oneByOne_of_routed (hupper : KeepsCaseless p) (hes : ∀ e ∈ es, e ≠ [])
    (hbytes : es.flatten = rs.flatMap WireRequest.bytes)
    (h : routed p es = routed p (rs.map WireRequest.bytes)) : OneByOne p rs es := by
  induction rs generalizing es with
  | nil => exact .stop (fun r hr => nomatch hr) (routed_eq_nil_iff.mp h)
  | cons r rs ih =>
    cases hr : parseEvent p r.bytes with
    | none =>
      have hnil : routed p ((r :: rs).map WireRequest.bytes) = [] := routed_rejected hr
      exact .stop (routed_requests_eq_nil_iff.mp hnil) (routed_eq_nil_iff.mp (h.trans hnil))
    | some ctx =>
      have hcons : routed p es = ctx :: routed p (rs.map WireRequest.bytes) :=
        h.trans (routed_cons hr)
      obtain ⟨e, es, rfl, he, hrest⟩ := exists_of_routed_eq_cons hcons
      obtain ⟨-, hes⟩ := List.forall_mem_cons.mp hes
      rw [List.flatten_cons, List.flatMap_cons] at hbytes
      rcases List.append_eq_append_iff.mp hbytes with ⟨x, hx, hmore⟩ | ⟨y, hy, hmore⟩
      · have hidle := idle_of_parse hr he hx.symm
        cases x with
        | nil =>
          rw [List.append_nil] at hx
          rw [← hx]
          exact .whole r (ih hes hmore hrest)
        | cons b x =>
          have hnil := routed_nil_of_cut hupper hes hidle hmore hrest
          exact .cut hx.symm hidle (routed_requests_eq_nil_iff.mp (hrest.symm.trans hnil))
            (routed_eq_nil_iff.mp hnil)
      · cases y with
        | nil =>
          rw [List.append_nil] at hy
          rw [hy]
          exact .whole r (ih hes hmore.symm hrest)
        | cons b y =>
          -- the event would go on with the next request
          cases rs with
          | nil => cases hmore
          | cons r' rs =>
            obtain ⟨b', rest, hbytes', hb'⟩ := r'.exists_bytes
            rw [List.flatMap_cons, hbytes'] at hmore
            obtain ⟨rfl, -⟩ := List.cons.inj hmore
            rw [hy] at he
            exact absurd he (parse_longer hr hb' y)

/-- **Segmentation**: however the network cuts the bytes of requests into data events, the
router is given the requests exactly if the events bring them one by one. -/
theorem routed_eq_iff_oneByOne (hupper : KeepsCaseless p) (hes : ∀ e ∈ es, e ≠ [])
    (hbytes : es.flatten = rs.flatMap WireRequest.bytes) :
    routed p es = routed p (rs.map WireRequest.bytes) ↔ OneByOne p rs es :=
  ⟨oneByOne_of_routed hupper hes hbytes, OneByOne.routed_eq⟩

end Stream

/-! ## Requests in events -/

theorem keepsCaseless_sample : KeepsCaseless samplePlatform := by
  intro text c hc hcase
  refine List.mem_map.mpr ⟨c, hc, ?_⟩
  rcases hcase with rfl | rfl | rfl <;> rfl

/-- A request with a body of two bytes. -/
def postRequest : WireRequest where
  method := utf8Encode (js "POST")
  target := utf8Encode (js "/chat")
  fields := [utf8Encode (js "Host: a"), utf8Encode (js "Content-Length: 2")]
  body := utf8Encode (js "ok")
  method_ne := by decide
  method_visible := List.all_iff_forall_prop.mp (by decide)
  target_ne := by decide
  target_visible := List.all_iff_forall_prop.mp (by decide)
  fields_ne := by decide
  fields_line := by decide

/-- A request without a body. -/
def getRequest : WireRequest where
  method := utf8Encode (js "GET")
  target := utf8Encode (js "/chat")
  fields := [utf8Encode (js "Host: a")]
  body := []
  method_ne := by decide
  method_visible := List.all_iff_forall_prop.mp (by decide)
  target_ne := by decide
  target_visible := List.all_iff_forall_prop.mp (by decide)
  fields_ne := by decide
  fields_line := by decide

/-- Two requests, the second of which is cut in front of the empty line that ends it. -/
def requestEvents : List (List UInt8) :=
  [postRequest.bytes, getRequest.lines.flatMap (· ++ crlf), crlf]

theorem oneByOne_requestEvents :
    OneByOne samplePlatform [postRequest, getRequest] requestEvents := by
  have hrejected : Rejected samplePlatform crlf :=
    rejected_iff.mpr (Option.isNone_iff_eq_none.mp (by decide))
  refine .whole postRequest (.cut (x := crlf) (by decide) (.emptyLine rfl) nofun ?_)
  intro e he
  rw [← Option.some.inj he]
  exact hrejected

/-- The router is given both requests, as if they had come in one event each. -/
theorem routed_eq_iff_oneByOne_requestEvents :
    routed samplePlatform requestEvents =
        routed samplePlatform ([postRequest, getRequest].map WireRequest.bytes) ∧
      (routed samplePlatform requestEvents).map HTTPContext.body = [js "ok", []] :=
  ⟨(routed_eq_iff_oneByOne keepsCaseless_sample (by decide) (by decide)).mpr oneByOne_requestEvents,
    by decide⟩

/-- The request in two events, cut in front of its body. -/
def postEvents : List (List UInt8) :=
  [postRequest.lines.flatMap (· ++ crlf) ++ crlf, postRequest.body]

/-- The request comes without its body, and the body is no request. -/
theorem bodies_postEvents :
    (routed samplePlatform postEvents).map HTTPContext.body = [[]] ∧
    (routed samplePlatform ([postRequest].map WireRequest.bytes)).map HTTPContext.body =
      [js "ok"] := by decide

theorem routed_postEvents_ne :
    routed samplePlatform postEvents ≠ routed samplePlatform ([postRequest].map WireRequest.bytes) := by
  intro h
  have hbodies := congrArg (List.map HTTPContext.body) h
  rw [bodies_postEvents.1, bodies_postEvents.2] at hbodies
  exact absurd hbodies (by decide)

/-- The router is not always given the requests that were sent. -/
theorem not_routed_eq : ¬∀ (p : Platform) (rs : List WireRequest) (es : List (List UInt8)),
    KeepsCaseless p → (∀ e ∈ es, e ≠ []) → es.flatten = rs.flatMap WireRequest.bytes →
    routed p es = routed p (rs.map WireRequest.bytes) :=
  fun h => routed_postEvents_ne
    (h samplePlatform [postRequest] postEvents keepsCaseless_sample (by decide) (by decide))

end NetworkServers.Phase2
