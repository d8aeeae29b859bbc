import NetworkServers.Http.RequestNormalForm

/-!
# Parsing a Rendered Request

`request_parse` reads back what `headers_to_string` has rendered: method, path and
body, and the headers in order. The table that `headers_set` fills is in normal form.
-/

namespace NetworkServers.Http

open NetworkServers.CString NetworkServers.Machine

/-! ## Requests that can be rendered -/

/-- A header given to `headers_set`: a non-empty ASCII name without `:`, space and line
ends, and a value without line ends. -/
structure HeaderText where
  name : List UInt8
  value : List UInt8
  name_ne : name ≠ []
  name_clean : ∀ c ∈ name, c < 128 ∧ c ∉ [0, 10, 13, 32, 58]
  value_clean : ∀ c ∈ value, c ∉ [0, 10, 13]

/-- A request as a client writes it: a start line of three words, at least one
header, and a body without NUL. -/
structure RequestText where
  method : List UInt8
  path : List UInt8
  version : List UInt8
  fields : List HeaderText
  body : List UInt8
  method_word : IsWord method
  path_word : IsWord path
  version_word : IsWord version
  fields_ne : fields ≠ []
  body_clean : ∀ c ∈ body, c ≠ 0

/-- The table that `headers_set` builds from the fields, in order. -/
def RequestText.headers (r : RequestText) : Headers :=
  r.fields.foldl (fun headers field => headersSet headers (some field.name) (some field.value))
    headersCreate

/-- The request that the text is to be read as. -/
def RequestText.request (r : RequestText) : Request where
  method := r.method
  path := r.path
  headers := r.headers
  body := r.body

/-- The text of the request around the rendered headers. -/
def RequestText.render (r : RequestText) (headers : List UInt8) : List UInt8 :=
  r.request.render r.version headers

/-- The field that `headers_set` stores. -/
def HeaderText.stored (field : HeaderText) : Header :=
  { name := field.name.map tolower, value := field.value }

/-! ## The stored request -/

theorem HeaderText.isField_stored (field : HeaderText) : IsField field.stored :=
  isField_lower field.name_ne (fun c hc => (field.name_clean c hc).2) field.value_clean

/-- The table lists the stored fields in order. -/
theorem RequestText.headers_fields (r : RequestText) :
    r.headers.fields = r.fields.map HeaderText.stored := by
  suffices h : ∀ (fields : List HeaderText) (headers : Headers),
      (fields.foldl (fun headers field =>
        headersSet headers (some field.name) (some field.value)) headers).fields =
        headers.fields ++ fields.map HeaderText.stored from h r.fields headersCreate
  intro fields
  induction fields with
  | nil => simp
  | cons field fields ih =>
    intro headers
    rw [List.foldl_cons, ih]
    simp [headersSet, HeaderText.stored]

theorem RequestText.normalForm (r : RequestText) : NormalForm r.request where
  method := r.method_word
  path := r.path_word
  fields := by
    intro field hfield
    rw [RequestText.request, r.headers_fields] at hfield
    obtain ⟨given, -, rfl⟩ := List.mem_map.mp hfield
    exact given.isField_stored
  body := r.body_clean

/-- The first field of the table that `headers_get` finds, in the fields as they were
given. -/
theorem RequestText.headersGet_headers (r : RequestText) (name : List UInt8) :
    headersGet r.headers name =
      (r.fields.find? fun f => f.name.map tolower = name.map tolower).map HeaderText.value := by
  simp only [headersGet, r.headers_fields, List.find?_map, Option.map_map]
  rfl

/-- **Round trip**: `request_parse` on a request text around the output of
`headers_to_string` reads back the method, the path, the body and the stored headers in
order, and `headers_get` finds the first header with a name in any letter case. -/
theorem requestParse_render (r : RequestText) (rendered : List UInt8) (bufferSize : ℕ)
    (hrendered : headersToString r.headers = .ok rendered)
    (hfits : (r.render rendered).length < bufferSize) :
    ∃ request, requestParse (receiveBuffer bufferSize (r.render rendered)) = .ok request ∧
      request.method = r.method ∧ request.path = r.path ∧ request.body = r.body ∧
      request.headers.fields = r.fields.map HeaderText.stored ∧
      ∀ name, headersGet request.headers name =
        (r.fields.find? fun f => f.name.map tolower = name.map tolower).map
          HeaderText.value := by
  have hne : r.request.headers.fields ≠ [] := by
    rw [RequestText.request, r.headers_fields]
    exact List.map_eq_nil_iff.not.mpr r.fields_ne
  refine ⟨r.request, ?_, rfl, rfl, rfl, r.headers_fields, r.headersGet_headers⟩
  exact r.normalForm.requestParse_text r.version_word hne hrendered hfits

/-- A request with two headers, one of them with an empty value, and a body of several
lines. -/
def postHello : RequestText where
  method := bytes "POST"
  path := bytes "/"
  version := bytes "HTTP/1.1"
  fields := [
    { name := bytes "Host", value := bytes "a:80, b"
      name_ne := host_ne, name_clean := List.all_iff_forall_prop.mp (by decide)
      value_clean := List.all_iff_forall_prop.mp (by decide) },
    { name := bytes "X-None", value := []
      name_ne := by decide, name_clean := List.all_iff_forall_prop.mp (by decide)
      value_clean := List.all_iff_forall_prop.mp (by decide) }]
  body := bytes "Hello\r\n\r\nWorld"
  method_word := ⟨post_ne, post_clean⟩
  path_word := ⟨root_ne, root_clean⟩
  version_word := ⟨by decide, List.all_iff_forall_prop.mp (by decide)⟩
  fields_ne := by decide
  body_clean := List.all_iff_forall_prop.mp (by decide)

theorem requestParse_render_postHello :
    ∃ rendered request, headersToString postHello.headers = .ok rendered ∧
      requestParse (receiveBuffer 100 (postHello.render rendered)) = .ok request ∧
      request.body = bytes "Hello\r\n\r\nWorld" ∧
      headersGet request.headers (bytes "HOST") = some (bytes "a:80, b") := by
  have hrendered : headersToString postHello.headers =
      .ok (bytes "host: a:80, b\r\nx-none: \r\n") := by decide
  obtain ⟨request, hparse, -, -, hbody, -, hget⟩ :=
    requestParse_render postHello _ 100 hrendered (by decide)
  refine ⟨_, request, hrendered, hparse, hbody, ?_⟩
  rw [hget]
  decide

end NetworkServers.Http
