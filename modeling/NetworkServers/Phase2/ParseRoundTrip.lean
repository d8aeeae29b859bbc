import NetworkServers.Library.Splitting
import NetworkServers.Phase2.Segments

/-!
# Reading Back a Rendered Request

A request is rendered as its request line, a line for each header, an empty line and the
body, and `parse` takes such a text apart again. It gets back what was rendered unless a
header value holds the separator `": "`, a header has a name that objects inherit, or the
target and the host make no URL.
-/

namespace NetworkServers.Phase2

open NetworkServers.Js

/-! ## Requests as texts -/

/-- A character of an HTTP token. -/
def isTokenChar (c : UInt16) : Bool :=
  (48 ≤ c ∧ c ≤ 57) ∨ (65 ≤ c ∧ c ≤ 90) ∨ (97 ≤ c ∧ c ≤ 122) ∨
    c ∈ [33, 35, 36, 37, 38, 39, 42, 43, 45, 46, 94, 95, 96, 124, 126]

/-- An HTTP token, as methods and header names are. -/
def IsToken (word : JsString) : Prop := word ≠ [] ∧ ∀ c ∈ word, isTokenChar c

theorem isToken_of_all {word : JsString} (hne : word ≠ []) (hall : word.all isTokenChar = true) :
    IsToken word :=
  ⟨hne, List.all_eq_true.mp hall⟩

theorem get_token : IsToken (js "GET") := isToken_of_all (by decide) (by decide)

theorem host_token : IsToken (js "Host") := isToken_of_all (by decide) (by decide)

theorem localhost_line : 13 ∉ js "localhost" ∧ 10 ∉ js "localhost" := by decide

/-- A header. Its value may be any text of one line, empty or with spaces around it. -/
structure HeaderField where
  name : JsString
  value : JsString
  name_token : IsToken name
  value_line : 13 ∉ value ∧ 10 ∉ value

/-- The name under which `parse` stores the values. -/
def HeaderField.key (f : HeaderField) : JsString := f.name.map asciiLower

def HeaderField.line (f : HeaderField) : JsString := f.name ++ js ": " ++ f.value

/-- What `header.split(": ")` leaves of the value. -/
def HeaderField.received (f : HeaderField) : JsString := (split (js ": ") f.value).headD []

/-- A request with a `Host` header. -/
structure TextRequest where
  method : JsString
  path : JsString
  fields : List HeaderField
  body : JsString
  method_token : IsToken method
  path_visible : ∀ c ∈ path, 33 ≤ c
  host : ∃ f ∈ fields, f.key = js "host"

namespace TextRequest

def startLine (r : TextRequest) : JsString := r.method ++ js " " ++ r.path ++ js " HTTP/1.1"

def lines (r : TextRequest) : List JsString := r.startLine :: r.fields.map HeaderField.line

/-- The rendered request. -/
def text (r : TextRequest) : JsString :=
  r.lines.flatMap (· ++ js "\r\n") ++ (js "\r\n" ++ r.body)

/-- The values of the headers with a name, in order. -/
def values (r : TextRequest) (key : JsString) : List (Option JsString) :=
  (r.fields.filter fun f => f.key = key).map fun f => some f.value

/-- The value of the first `Host` header, or what stands in for an empty one. -/
def authority (r : TextRequest) : JsString :=
  match r.fields.find? fun f => f.key = js "host" with
  | none => js "localhost"
  | some f => if f.value = [] then js "localhost" else f.value

end TextRequest

/-! ## The lines of a rendered request -/

section Lines

variable {p : Platform}

theorem isTokenChar_range {c : UInt16} (h : isTokenChar c) : 33 ≤ c ∧ c ≤ 126 ∧ c ≠ 58 := by
  simp only [isTokenChar, List.mem_cons, List.not_mem_nil, or_false, decide_eq_true_eq] at h
  simp only [UInt16.le_iff_toNat_le, ← UInt16.toNat_inj, ne_eq] at h ⊢
  simp only [UInt16.reduceToNat] at h ⊢
  omega

theorem IsToken.range {word : JsString} (h : IsToken word) {c : UInt16} (hc : c ∈ word) :
    33 ≤ c ∧ c ≤ 126 ∧ c ≠ 58 := isTokenChar_range (h.2 c hc)

/-- Tokens hold no spaces and no control characters. -/
theorem IsToken.not_mem {word : JsString} (h : IsToken word) {c : UInt16} (hc : c < 33) :
    c ∉ word := by
  intro hmem
  exact absurd (h.range hmem).1 (UInt16.not_le.mpr hc)

theorem IsToken.ascii {word : JsString} (h : IsToken word) : ∀ c ∈ word, c < 128 := by
  intro c hc
  exact UInt16.lt_of_le_of_lt (h.range hc).2.1 (by decide)

theorem HeaderField.line_ne (f : HeaderField) : f.line ≠ [] := by
  rw [line, List.append_assoc]
  exact List.append_ne_nil_of_left_ne_nil f.name_token.1 _

theorem HeaderField.not_mem_line (f : HeaderField) : 13 ∉ f.line := by
  have hseparator : (13 : UInt16) ∉ js ": " := by decide
  simp only [line, List.mem_append, not_or]
  exact ⟨⟨f.name_token.not_mem (by decide), hseparator⟩, f.value_line.1⟩

/-- What `parse` makes of a header line. -/
theorem headerEntry_line (f : HeaderField) :
    headerEntry p f.line = (f.key, some f.received) := by
  have hcolon : 58 ∉ f.name := fun hmem => (f.name_token.range hmem).2.2 rfl
  have hsplit : split (js ": ") f.line = f.name :: split (js ": ") f.value := by
    rw [HeaderField.line, List.append_assoc]
    exact split_append hcolon f.value
  rw [headerEntry, keyValue, hsplit, List.headD_cons, p.lower_ascii _ f.name_token.ascii]
  -- the second part of the line is the first one of the value
  obtain ⟨part, parts, hparts⟩ := List.exists_cons_of_ne_nil (split_ne_nil (js ": ") f.value)
  rw [HeaderField.received, hparts]
  rfl

/-- A value is received as it is if it does not hold the separator. -/
theorem received_eq_iff (f : HeaderField) : f.received = f.value ↔ ¬js ": " <:+: f.value :=
  headD_split_eq_iff

end Lines

namespace TextRequest

variable {p : Platform} (r : TextRequest)

theorem not_mem_startLine : 13 ∉ r.startLine := by
  have hpath : 13 ∉ r.path := fun hmem => absurd (r.path_visible 13 hmem) (by decide)
  have hspace : (13 : UInt16) ∉ js " " := by decide
  have hversion : (13 : UInt16) ∉ js " HTTP/1.1" := by decide
  simp only [startLine, List.mem_append, not_or]
  exact ⟨⟨⟨r.method_token.not_mem (by decide), hspace⟩, hpath⟩, hversion⟩

/-- The text falls into the lines it was put together from, and those of the body. -/
theorem split_text : split (js "\r\n") r.text =
    r.startLine :: (r.fields.map HeaderField.line ++ [] :: split (js "\r\n") r.body) := by
  have hlines : ∀ line ∈ r.lines, 13 ∉ line := by
    refine List.forall_mem_cons.mpr ⟨r.not_mem_startLine, fun line hline => ?_⟩
    obtain ⟨f, -, rfl⟩ := List.mem_map.mp hline
    exact f.not_mem_line
  have hempty : split (js "\r\n") (js "\r\n" ++ r.body) = [] :: split (js "\r\n") r.body :=
    split_sep 13 [10] r.body
  rw [← hempty]
  exact split_flatMap hlines _

theorem lines_ne : ∀ line ∈ r.fields.map HeaderField.line, line ≠ [] := by
  intro line hline
  obtain ⟨f, -, rfl⟩ := List.mem_map.mp hline
  exact f.line_ne

theorem headerEntries_text :
    headerEntries p r.text = r.fields.map fun f => (f.key, some f.received) := by
  rw [headerEntries, split_text, List.tail_cons, (headerLines_append _ r.lines_ne).1, List.map_map]
  exact List.map_congr_left fun f _ => headerEntry_line f

/-- The request line is taken apart at its spaces. -/
theorem keyValue_startLine : keyValue (js " ") r.startLine = (r.method, some r.path) := by
  have hmethod : 32 ∉ r.method := r.method_token.not_mem (by decide)
  have hpath : 32 ∉ r.path := fun hmem => absurd (r.path_visible 32 hmem) (by decide)
  have hshape : r.startLine = r.method ++ ([32] ++ (r.path ++ ([32] ++ js "HTTP/1.1"))) := by
    simp only [startLine, List.append_assoc]
    rfl
  have hsplit : split (js " ") r.startLine =
      r.method :: r.path :: split (js " ") (js "HTTP/1.1") := by
    rw [hshape]
    exact (split_append hmethod _).trans (congrArg _ (split_append hpath _))
  rw [keyValue, hsplit]
  rfl

theorem rawPath_text : rawPath r.text = r.path := by
  rw [rawPath, split_text, List.headD_cons, keyValue_startLine]
  rfl

/-- The parts of a rendered request that can be parsed. -/
theorem parse_text {ctx : HTTPContext} (h : parse p r.text = some ctx) :
    ctx.method = r.method.map asciiUpper ∧ ctx.body = r.body ∧
    p.newURL r.path (js "http://" ++ requestHost p r.text) = some ctx.path ∧
    ∀ key, ctx.headers.get? key =
      moreValues none ((r.fields.filter fun f => f.key = key).map fun f => some f.received) := by
  obtain ⟨hmethod, -, hbody⟩ := parse_parts h
  rw [split_text, List.headD_cons, keyValue_startLine, p.upper_ascii _ r.method_token.ascii]
    at hmethod
  rw [split_text, List.tail_cons, (headerLines_append _ r.lines_ne).2] at hbody
  refine ⟨hmethod, hbody.trans (intercalate_split 13 [10] r.body), ?_, fun key => ?_⟩
  · rw [← rawPath_text]
    exact url_of_parse h
  · rw [headers_of_parse h key, headerEntries_text, List.filter_map, List.map_map]
    rfl

/-- What `parse` needs of a rendered request. -/
theorem parseable_text_iff : Parseable p r.text ↔
    (∀ f ∈ r.fields, f.key ∉ objectPrototype) ∧
      (p.newURL r.path (js "http://" ++ requestHost p r.text)).isSome := by
  constructor
  · rintro ⟨hnames, -, hurl⟩
    rw [headerEntries_text] at hnames
    rw [rawPath_text] at hurl
    exact ⟨fun f hf => hnames _ (List.mem_map_of_mem hf), hurl⟩
  · rintro ⟨hnames, hurl⟩
    obtain ⟨f, hf, hkey⟩ := r.host
    refine { names := fun e he => ?_, host := ⟨(f.key, some f.received), ?_, hkey⟩, url := ?_ }
    · rw [headerEntries_text] at he
      obtain ⟨f, hf, rfl⟩ := List.mem_map.mp he
      exact hnames f hf
    · rw [headerEntries_text]
      exact List.mem_map_of_mem hf
    · rwa [rawPath_text]

/-! ## The round trip -/

/-- `parse` gives back what was rendered: the upper-cased method, for each lower-cased
header name its values in order, and the body. -/
def RoundTrips (p : Platform) (r : TextRequest) : Prop :=
  ∃ ctx, parse p r.text = some ctx ∧ ctx.method = r.method.map asciiUpper ∧
    (∀ key, ctx.headers.get? key = if r.values key = [] then none else some (r.values key)) ∧
    ctx.body = r.body

/-- A request that `parse` can take apart. -/
structure Readable (p : Platform) (r : TextRequest) : Prop where
  /-- No value holds the separator. -/
  values : ∀ f ∈ r.fields, ¬js ": " <:+: f.value
  /-- No header has a name that objects inherit. -/
  names : ∀ f ∈ r.fields, f.key ∉ objectPrototype
  /-- The target and the host make a URL. -/
  url : (p.newURL r.path (js "http://" ++ r.authority)).isSome

variable {r}

/-- Where the values are received as they are, the host is too. -/
theorem requestHost_text (h : ∀ f ∈ r.fields, f.received = f.value) :
    requestHost p r.text = r.authority := by
  have hfind : (headerEntries p r.text).find? (fun e => e.1 = js "host") =
      (r.fields.find? fun f => f.key = js "host").map fun f => (f.key, some f.received) := by
    rw [headerEntries_text, List.find?_map]
    rfl
  rw [requestHost, authority, hfind]
  cases hhost : r.fields.find? fun f => f.key = js "host" with
  | none => rfl
  | some f => simp [h f (List.mem_of_find?_eq_some hhost)]

theorem moreValues_none (values : List (Option JsString)) :
    moreValues none values = if values = [] then none else some values := rfl

/-- **Round trip of the request parser**: a rendered request is given back by `parse` if
and only if none of its header values holds `": "`, none of its header names is one that
objects inherit, and its target and host make a URL. -/
theorem roundTrips_iff (p : Platform) (r : TextRequest) : r.RoundTrips p ↔ r.Readable p := by
  constructor
  · rintro ⟨ctx, hparse, -, hheaders, -⟩
    obtain ⟨-, -, -, hget⟩ := r.parse_text hparse
    obtain ⟨hnames, hurl⟩ := r.parseable_text_iff.mp
      ((parse_isSome_iff p r.text).mp (Option.isSome_iff_exists.mpr ⟨ctx, hparse⟩))
    -- the list of values under a name is the right one, so each of the values is
    have hreceived : ∀ f ∈ r.fields, f.received = f.value := by
      intro f hf
      have hmem : f ∈ r.fields.filter fun f' => f'.key = f.key :=
        List.mem_filter.mpr ⟨hf, decide_eq_true rfl⟩
      have hlists := (hget f.key).symm.trans (hheaders f.key)
      rw [moreValues_none, values, if_neg (List.ne_nil_of_mem (List.mem_map_of_mem hmem)),
        if_neg (List.ne_nil_of_mem (List.mem_map_of_mem hmem))] at hlists
      have hvalue := List.map_inj_left.mp (Option.some.inj hlists) f hmem
      exact Option.some.inj hvalue
    refine { values := fun f hf => (received_eq_iff f).mp (hreceived f hf), names := hnames
             url := ?_ }
    rwa [← requestHost_text hreceived]
  · intro h
    have hreceived : ∀ f ∈ r.fields, f.received = f.value :=
      fun f hf => (received_eq_iff f).mpr (h.values f hf)
    have hparseable : Parseable p r.text := by
      apply r.parseable_text_iff.mpr
      exact ⟨h.names, (requestHost_text hreceived).symm ▸ h.url⟩
    obtain ⟨ctx, hparse⟩ := Option.isSome_iff_exists.mp ((parse_isSome_iff p r.text).mpr hparseable)
    obtain ⟨hmethod, hbody, -, hget⟩ := r.parse_text hparse
    refine ⟨ctx, hparse, hmethod, fun key => ?_, hbody⟩
    have hvalues : (r.fields.filter fun f => f.key = key).map (fun f => some f.received) =
        r.values key := by
      apply List.map_congr_left
      intro f hf
      rw [hreceived f (List.mem_of_mem_filter hf)]
    rw [hget key, hvalues, moreValues_none]

/-- A `GET` request with a header whose value holds the separator. -/
def noteRequest : TextRequest where
  method := js "GET"
  path := js "/"
  fields := [
    { name := js "Host", value := js "localhost"
      name_token := host_token, value_line := localhost_line },
    { name := js "Note", value := js "a: b"
      name_token := isToken_of_all (by decide) (by decide), value_line := by decide }]
  body := []
  method_token := get_token
  path_visible := List.all_iff_forall_prop.mp (by decide)
  host := ⟨_, List.mem_cons_self, by decide⟩

/-- The value `a: b` is received as `a`, though the target and the host make a URL. -/
theorem not_roundTrips_note :
    (samplePlatform.newURL noteRequest.path (js "http://" ++ noteRequest.authority)).isSome ∧
      ¬noteRequest.RoundTrips samplePlatform := by
  refine ⟨rfl, ?_⟩
  rintro ⟨ctx, hparse, -, hheaders, -⟩
  have hvalues := hheaders (js "note")
  rw [(noteRequest.parse_text hparse).2.2.2 (js "note")] at hvalues
  revert hvalues
  decide

end TextRequest

end NetworkServers.Phase2
