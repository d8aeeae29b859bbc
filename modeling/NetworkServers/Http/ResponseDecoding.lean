import NetworkServers.Library.HttpFields
import NetworkServers.Http.Response

/-!
# Decoding a Rendered Response

The text of `response_to_string` read back by a client: whatever status, headers and body
a handler has put into a response, the client takes exactly these out of it again. A name
may hold single colons and blanks but no `": "`, and lower-casing it does not make one;
a header line is never empty, because the `": "` that `headers_to_string` writes is part
of it.
-/

namespace NetworkServers.Http

open NetworkServers.CString NetworkServers.HttpMessage NetworkServers.Machine

/-! ## What a handler sets -/

/-- A name and a value that are handed to `headers_set`. -/
structure SetField where
  name : List UInt8
  value : List UInt8
  name_clean : ∀ c ∈ name, c ∉ [0, 10, 13]
  name_mark : ¬fieldMark <:+: name
  value_clean : ∀ c ∈ value, c ∉ [0, 10, 13]

/-- A status, the headers in the order in which they are set, and a body, which is a C
string or `NULL`. -/
structure ResponseText where
  status : ℤ
  fields : List SetField
  body : Option (List UInt8)
  body_clean : ∀ c ∈ body.getD [], c ≠ 0

/-- The field with its name in lower case. -/
def SetField.stored (field : SetField) : Field :=
  { name := field.name.map tolower, value := field.value }

namespace ResponseText

variable (r : ResponseText)

/-- The headers after all `headers_set` calls. -/
def headers : Headers :=
  r.fields.foldl (fun headers field => headersSet headers (some field.name) (some field.value))
    headersCreate

/-- The response that the handler has made. -/
def response : Response :=
  { responseCreate with status := r.status, headers := r.headers, body := r.body }

/-- The body as it is rendered. -/
def content : List UInt8 := r.body.getD []

/-- Everything that is rendered. -/
def rendering : List UInt8 :=
  statusLine r.status ++ contentLength r.content ++ headerText r.headers ++ bytes "\r\n" ++ r.content

/-- What a client reads. -/
def decoded : SizedResponse where
  status := r.status
  fields := { name := lengthName, value := decimal r.content.length } ::
    r.fields.map SetField.stored
  length := r.content.length
  body := r.content

end ResponseText

/-! ## The pieces of the text -/

theorem decimal_eq_integer (n : ℤ) : decimal n = integer n := by
  cases n with
  | ofNat n =>
    show bytes (Nat.repr n) = numeral 10 n
    rw [bytes, Nat.repr, numeral, String.toList_ofList]
  | negSucc n =>
    show bytes ("-" ++ Nat.repr (n + 1)) = 45 :: numeral 10 (n + 1)
    rw [bytes, Nat.repr, numeral, String.toList_append, List.map_append]
    simp only [String.toList_ofList]
    rfl

/-- Lower-casing makes no byte that is not a letter. -/
theorem eq_of_tolower {c d : UInt8} (hd : ¬(97 ≤ d ∧ d ≤ 122)) (h : tolower c = d) : c = d := by
  unfold tolower at h
  grind

theorem fieldMark_infix_of_tolower {name : List UInt8} (h : fieldMark <:+: name.map tolower) :
    fieldMark <:+: name := by
  obtain ⟨s, t, heq⟩ := h
  obtain ⟨u, w, rfl, hu, -⟩ := List.map_eq_append_iff.mp heq.symm
  obtain ⟨v, m, rfl, -, hm⟩ := List.map_eq_append_iff.mp hu
  -- each of the two bytes was there before
  obtain ⟨c, m, rfl, hc, hrest⟩ := List.map_eq_cons_iff.mp hm
  obtain ⟨d, m, rfl, hd, hnil⟩ := List.map_eq_cons_iff.mp hrest
  obtain rfl := eq_of_tolower (by decide) hc
  obtain rfl := eq_of_tolower (by decide) hd
  obtain rfl := List.map_eq_nil_iff.mp hnil
  exact ⟨v, w, rfl⟩

/-- What `headers_set` stores reads back. -/
theorem SetField.stored_clean (field : SetField) : field.stored.Clean where
  name h := field.name_mark (fieldMark_infix_of_tolower h)
  text h := by
    have hmem : (13 : UInt8) ∈ field.name.map tolower ++ fieldMark ++ field.value :=
      h.subset (by decide)
    rw [List.mem_append, List.mem_append] at hmem
    rcases hmem with (hmem | hmem) | hmem
    · -- lower-casing makes no carriage return
      obtain ⟨c, hc, hlower⟩ := List.mem_map.mp hmem
      obtain rfl := eq_of_tolower (by decide) hlower
      exact field.name_clean 13 hc (by decide)
    · exact absurd hmem (by decide)
    · exact field.value_clean 13 hmem (by decide)

/-- The line of `Content-Length` reads back. -/
theorem lengthField_clean (n : ℕ) :
    ({ name := lengthName, value := decimal n } : Field).Clean where
  name h := by
    have hmem : (58 : UInt8) ∈ lengthName := h.subset (by decide)
    exact absurd hmem (by decide)
  text h := by
    have hmem : (13 : UInt8) ∈ lengthName ++ fieldMark ++ decimal n := h.subset (by decide)
    rw [decimal_eq_integer, List.mem_append] at hmem
    rcases hmem with hmem | hmem
    · exact absurd hmem (by decide)
    · exact not_mem_integer (by decide) (by decide) n hmem

namespace ResponseText

variable (r : ResponseText)

theorem headers_fields : r.headers.fields =
    r.fields.map fun field => { name := field.name.map tolower, value := field.value } := by
  -- the table that `headers_set` has filled so far stands in front
  have hfold : ∀ (fields : List SetField) (headers : Headers),
      (fields.foldl (fun headers field =>
        headersSet headers (some field.name) (some field.value)) headers).fields =
      headers.fields ++ fields.map fun field =>
        { name := field.name.map tolower, value := field.value } := by
    intro fields
    induction fields with
    | nil => exact fun headers => (List.append_nil _).symm
    | cons field fields ih =>
      intro headers
      rw [List.foldl_cons, ih, List.map_cons]
      show headers.fields ++ [_] ++ _ = _
      rw [List.append_assoc, List.singleton_append]
      rfl
  exact hfold r.fields headersCreate

/-- The header lines are those of the stored fields. -/
theorem headerText_headers :
    headerText r.headers = (r.fields.map SetField.stored).flatMap fun field => field.text ++ crlf := by
  rw [headerText, headers_fields, List.flatMap_map, List.flatMap_map]
  rfl

/-- The text is rendered if it fits. -/
theorem responseToString_response (hfits : r.rendering.length < textBufferSize) :
    responseToString r.response = .ok r.rendering := by
  have hheaders : (headerText r.headers).length < textBufferSize := by
    apply lt_of_le_of_lt _ hfits
    simp only [rendering, List.length_append]
    omega
  have htext : headersToString r.headers = .ok (headerText r.headers) := if_pos hheaders
  unfold responseToString
  apply bind_eq_ok.mpr
  exact ⟨_, htext, if_pos hfits⟩

/-- The text in the shape in which a client reads it. -/
theorem rendering_eq : r.rendering =
    version ++ integer r.status ++ 32 :: bytes "OK" ++ crlf ++
      (r.decoded.fields.flatMap (fun field => field.text ++ crlf) ++ (crlf ++ (r.content ++ []))) := by
  rw [rendering, headerText_headers, statusLine, contentLength, decimal_eq_integer, decoded,
    List.flatMap_cons]
  -- the pieces of the format strings are those that the reader looks for
  have hversion : bytes "HTTP/1.1 " = version := rfl
  have hreason : bytes " OK\r\n" = 32 :: bytes "OK" ++ crlf := rfl
  have hname : bytes "Content-Length: " = lengthName ++ fieldMark := rfl
  have hend : bytes "\r\n" = crlf := rfl
  rw [hversion, hreason, hname, hend]
  simp only [Field.text, List.append_assoc, List.append_nil]

/-- The first `Content-Length` is the one that `response_to_string` writes, even if the
handler has set another one. -/
theorem lengthOf_decoded : lengthOf r.decoded.fields = some r.content.length := by
  show numeralValue 10 (decimal r.content.length) = _
  rw [decimal_eq_integer]
  exact numeralValue_numeral (by decide) (by decide) _

/-- **A response decodes**: if the text fits into the buffer, then it is rendered, and a
client reads the status, the length of the body, the headers in their order with names in
lower case, and the body, and nothing is left over. -/
theorem responseToString_decodes (hfits : r.rendering.length < textBufferSize) :
    ∃ text, responseToString r.response = .ok text ∧ readSized text = some (r.decoded, []) := by
  have hclean : ∀ field ∈ r.decoded.fields, field.Clean := by
    intro field hfield
    rcases List.mem_cons.mp hfield with rfl | hfield
    · exact lengthField_clean r.content.length
    · obtain ⟨f, -, rfl⟩ := List.mem_map.mp hfield
      exact f.stored_clean
  refine ⟨r.rendering, r.responseToString_response hfits, ?_⟩
  rw [rendering_eq]
  exact readSized_text (by decide) hclean r.lengthOf_decoded []

theorem nil_clean : ∀ c ∈ ([] : List UInt8), c ∉ [0, 10, 13] := by simp

theorem nil_mark : ¬fieldMark <:+: ([] : List UInt8) := by decide

theorem lengthName_clean : ∀ c ∈ bytes "Content-Length:", c ∉ [0, 10, 13] :=
  List.all_iff_forall_prop.mp (by decide)

theorem lengthName_mark : ¬fieldMark <:+: bytes "Content-Length:" := by decide

theorem markedValue_clean : ∀ c ∈ bytes " 7: 8", c ∉ [0, 10, 13] :=
  List.all_iff_forall_prop.mp (by decide)

/-- An empty header, a name of its own for the length, and a body with empty lines. -/
def sample : ResponseText where
  status := -404
  fields := [
    { name := [], value := [], name_clean := nil_clean, name_mark := nil_mark,
      value_clean := nil_clean },
    { name := bytes "Content-Length:", value := bytes " 7: 8"
      name_clean := lengthName_clean, name_mark := lengthName_mark
      value_clean := markedValue_clean }]
  body := some (bytes "\r\n\r\nA: b\r\n")
  body_clean := List.all_iff_forall_prop.mp (by decide)

theorem responseToString_decodes_sample :
    ∃ text, responseToString sample.response = .ok text ∧
      readSized text = some (sample.decoded, []) :=
  responseToString_decodes sample (by decide)

end ResponseText

end NetworkServers.Http
