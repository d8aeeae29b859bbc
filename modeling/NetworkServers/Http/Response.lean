import NetworkServers.Http.Headers

/-!
# The Two Ways to Answer

Translation of `src/src/response.c` and of the end of `handle_client` of
`src/src/http-server.c`, where the response is written to the client: as one text that
`response_to_string` renders, or, if a middleware has set a stream, as the headers and a
copy of the stream. Only the first way writes a status line and the empty line.
-/

namespace NetworkServers.Http

open NetworkServers.CString NetworkServers.Machine

/-- `struct Response`. A stream is given by what `fread` returns, read by read. -/
structure Response where
  status : ℤ
  headers : Headers
  body : Option (List UInt8)
  bodyStream : Option (List (List UInt8))
deriving DecidableEq

/-- `response_create`. -/
def responseCreate : Response :=
  { status := 200, headers := headersCreate, body := none, bodyStream := none }

/-- `"%d"` and `"%ld"`. -/
def decimal (n : ℤ) : List UInt8 := bytes (toString n)

/-- `"HTTP/1.1 %d OK\r\n"`. -/
def statusLine (status : ℤ) : List UInt8 := bytes "HTTP/1.1 " ++ decimal status ++ bytes " OK\r\n"

/-- `"Content-Length: %ld\r\n"`. -/
def contentLength (body : List UInt8) : List UInt8 :=
  bytes "Content-Length: " ++ decimal body.length ++ bytes "\r\n"

/-- `response_to_string`, as long as the text fits into its buffer together with its NUL. -/
def responseToString (response : Response) : Except Fault (List UInt8) := do
  let body := response.body.getD []
  let headers ← headersToString response.headers
  let text := statusLine response.status ++ contentLength body ++ headers ++ bytes "\r\n" ++ body
  if text.length < textBufferSize then return text else .error .outOfBounds

/-- The reads that the copy loop writes. It ends with the first one that is empty. -/
def copied : List (List UInt8) → List (List UInt8)
  | [] => []
  | chunk :: stream => if chunk = [] then [] else chunk :: copied stream

/-- The `write` calls of `handle_client`. -/
def sendResponse (response : Response) : Except Fault (List (List UInt8)) :=
  match response.bodyStream with
  | some stream => do
    let headers ← headersToString response.headers
    return headers :: copied stream
  | none => do
    let text ← responseToString response
    return [text]

/-! ## Complete responses -/

/-- The text of the header lines. -/
def headerText (headers : Headers) : List UInt8 := headers.fields.flatMap headerLine

/-- The status line, the header lines, an empty line and exactly the content. -/
def Complete (response : Response) (content out : List UInt8) : Prop :=
  out = statusLine response.status ++ headerText response.headers ++ bytes "\r\n" ++ content

/-- The text without its `Content-Length` line. -/
def WithoutLength (content text out : List UInt8) : Prop :=
  ∃ before after, text = before ++ contentLength content ++ after ∧ out = before ++ after

section Output

variable {response : Response} {text : List UInt8}

theorem headersToString_ok {headers : Headers} (h : headersToString headers = .ok text) :
    text = headerText headers := by
  unfold headersToString at h
  dsimp only at h
  split at h
  · exact (Except.ok.inj h).symm
  · cases h

/-- What `response_to_string` has rendered. -/
theorem responseToString_ok (h : responseToString response = .ok text) :
    text = statusLine response.status ++ contentLength (response.body.getD []) ++
      headerText response.headers ++ bytes "\r\n" ++ response.body.getD [] := by
  obtain ⟨headers, hheaders, h⟩ := bind_eq_ok.mp h
  rw [headersToString_ok hheaders] at h
  dsimp only at h
  split at h
  · exact (Except.ok.inj h).symm
  · cases h

/-- A response without a stream is complete, apart from the line that it has besides. -/
theorem sendResponse_complete {writes : List (List UInt8)} (hstream : response.bodyStream = none)
    (h : sendResponse response = .ok writes) :
    ∃ out, Complete response (response.body.getD []) out ∧
      WithoutLength (response.body.getD []) writes.flatten out := by
  unfold sendResponse at h
  rw [hstream] at h
  obtain ⟨text, htext, h⟩ := bind_eq_ok.mp h
  cases h
  refine ⟨_, rfl, statusLine response.status,
    headerText response.headers ++ bytes "\r\n" ++ response.body.getD [], ?_, ?_⟩
  · rw [List.flatten_singleton, responseToString_ok htext]
    simp only [List.append_assoc]
  · simp only [List.append_assoc]

/-- What is written in stream mode. -/
theorem sendResponse_stream {stream writes : List (List UInt8)}
    (h : sendResponse { response with bodyStream := some stream } = .ok writes) :
    writes.flatten = headerText response.headers ++ (copied stream).flatten := by
  obtain ⟨headers, hheaders, h⟩ := bind_eq_ok.mp h
  cases h
  rw [List.flatten_cons, headersToString_ok hheaders]

/-- The bytes that are written in stream mode are a complete response with the streamed
content. -/
def StreamComplete (response : Response) (stream : List (List UInt8)) : Prop :=
  ∃ writes, sendResponse { response with bodyStream := some stream } = .ok writes ∧
    Complete response (copied stream).flatten writes.flatten

/-- Apart from `Content-Length` they are what `response_to_string` renders for this
content. -/
def StreamMatches (response : Response) (stream : List (List UInt8)) : Prop :=
  ∃ writes text, sendResponse { response with bodyStream := some stream } = .ok writes ∧
    responseToString { response with body := some (copied stream).flatten } = .ok text ∧
    WithoutLength (copied stream).flatten text writes.flatten

/-- **The two ways never agree**: for every response and every stream, what is written in
stream mode is neither complete nor what `response_to_string` renders, because the status
line and the empty line are missing. -/
theorem stream_never_agrees (response : Response) (stream : List (List UInt8)) :
    ¬StreamComplete response stream ∧ ¬StreamMatches response stream := by
  have hstart : (bytes "HTTP/1.1 ").length = 9 := rfl
  constructor
  · rintro ⟨writes, hwrites, hcomplete⟩
    have hlength := congrArg List.length ((sendResponse_stream hwrites).symm.trans hcomplete)
    simp only [List.length_append, statusLine] at hlength
    omega
  · rintro ⟨writes, text, hwrites, htext, before, after, hsplit, hout⟩
    have htotal := congrArg List.length ((responseToString_ok htext).symm.trans hsplit)
    have hlength := congrArg List.length ((sendResponse_stream hwrites).symm.trans hout)
    simp only [List.length_append, statusLine, Option.getD_some] at htotal hlength
    omega

/-- A page that is sent as a stream of one chunk. -/
def samplePage : Response where
  status := 200
  headers := headersSet headersCreate (some (bytes "Content-Type")) (some (bytes "text/html"))
  body := none
  bodyStream := some [bytes "<p>Hi</p>"]

/-- The client gets the header lines and the page, and nothing else. -/
theorem not_streamComplete_page :
    sendResponse samplePage = .ok [bytes "content-type: text/html\r\n", bytes "<p>Hi</p>"] ∧
    ¬Complete samplePage (bytes "<p>Hi</p>")
      (bytes "content-type: text/html\r\n" ++ bytes "<p>Hi</p>") := by
  constructor
  · decide
  · unfold Complete
    decide

end Output

end NetworkServers.Http
