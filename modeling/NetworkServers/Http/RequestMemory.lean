import NetworkServers.Http.BodyOwnership
import NetworkServers.Http.HeaderTable
import NetworkServers.Library.HeapPrograms

/-!
# The Memory of a Request

`handle_client` of `src/src/http-server.c` with everything that it allocates until it returns: its
argument, the receive buffer, the request and the response with their tables of headers, the
texts that are rendered, and the stream of a file. The functions that it calls are translated once
more, from `src/src/headers.c`, `src/src/request.c`, `src/src/response.c` and the middlewares, on a
heap of objects that point to each other.

The program does what the one on values does. Behind it, all objects that it has made are freed,
but for two kinds of strings: the path that the static handler makes, and a body that a later
handler replaces.
-/

namespace NetworkServers.Http.RequestMemory

open NetworkServers.CString (bytes CState Memory readByte strtok)
open NetworkServers.HeapMemory NetworkServers.Http.BodyOwnership
open NetworkServers.Http.HeaderTable (Field)

/-! ## Objects -/

/-- `struct Request`. A pointer is `none` until it is assigned. -/
structure RequestObject where
  method : Option ℕ
  path : Option ℕ
  headers : ℕ
  body : Option ℕ
deriving DecidableEq, Repr

/-- `struct Response`. -/
structure ResponseObject where
  status : ℤ
  headers : ℕ
  body : BodyPointer
  bodyStream : Option ℕ
deriving DecidableEq, Repr

inductive Object where
  /-- What `malloc` returns. -/
  | uninitialised
  /-- `struct HandlerArg`, with its descriptor. -/
  | handlerArg (client : ℕ)
  /-- A string, or a buffer. -/
  | text (content : List UInt8)
  /-- An array of `struct Header`. -/
  | fields (fields : List Field)
  /-- `struct Headers`. -/
  | headers (fields : Option ℕ) (size : ℕ)
  | request (request : RequestObject)
  | response (response : ResponseObject)
  /-- A `FILE`, with the reads that it still gives. -/
  | file (reads : List (List UInt8))
deriving DecidableEq, Repr

def Object.handlerArg? : Object → Option ℕ
  | .handlerArg client => some client
  | _ => none

def Object.text? : Object → Option (List UInt8)
  | .text content => some content
  | _ => none

def Object.fields? : Object → Option (List Field)
  | .fields array => some array
  | _ => none

def Object.headers? : Object → Option (Option ℕ × ℕ)
  | .headers array size => some (array, size)
  | _ => none

def Object.request? : Object → Option RequestObject
  | .request object => some object
  | _ => none

def Object.response? : Object → Option ResponseObject
  | .response object => some object
  | _ => none

def Object.file? : Object → Option (List (List UInt8))
  | .file reads => some reads
  | _ => none

/-- What goes wrong apart from the heap. -/
inductive RequestFault where
  /-- In a text. -/
  | text (fault : CString.Fault)
  /-- A literal is handed to `free`. -/
  | literalFreed
deriving DecidableEq, Repr

/-- A function of the server, on the heap. -/
abbrev Action := Program RequestFault Object

/-- A computation on texts. -/
def onText {α : Type} (x : Except CString.Fault α) : Except RequestFault α := x.mapError .text

/-- `strdup`, and `calloc` for an empty text. -/
def strdup (text : List UInt8) : Action ℕ := Program.alloc (.text text)

/-- A string is read. -/
def readText (p : ℕ) : Action (List UInt8) := Program.load Object.text? p

/-- A pointer is followed. -/
def nonNull : Option ℕ → Action ℕ
  | some p => return p
  | none => Program.attempt (.error (.text .nullPointer))

/-! ## Headers -/

/-- `headers_create`. -/
def headersCreate : Action ℕ := Program.alloc (.headers none 0)

/-- The `realloc` of `headers_set`, which allocates the first time. -/
def growFields : Option ℕ → Action ℕ
  | none => Program.alloc (.fields [])
  | some array => Program.realloc array

/-- `headers_set`. -/
def headersSet (headers : ℕ) (name value : Option (List UInt8)) : Action Unit := do
  let (array, size) ← Program.load Object.headers? headers
  Program.store headers (.headers array (size + 1))
  let array ← growFields array
  Program.store headers (.headers (some array) (size + 1))
  let name ← strdup ((name.getD []).map tolower)
  let value ← strdup (value.getD [])
  let fields ← Program.load Object.fields? array
  Program.store array (.fields (fields ++ [{ name := name, value := value }]))

/-- The fields that a loop up to `headers->size` visits. -/
def readFields (array : Option ℕ) (size : ℕ) : Action (List Field) :=
  if size = 0 then return []
  else do
    let fields ← Program.load Object.fields? (← nonNull array)
    if size ≤ fields.length then return fields.take size
    else Program.attempt (.error (.text .outOfBounds))

/-- The lines that `headers_to_string` writes. -/
def renderFields : List Field → Action (List UInt8)
  | [] => return []
  | field :: fields => do
    let name ← readText field.name
    let value ← readText field.value
    return headerLine { name := name, value := value } ++ (← renderFields fields)

/-- `headers_to_string`. -/
def headersToString (headers : ℕ) : Action ℕ := do
  let buffer ← strdup []
  let (array, size) ← Program.load Object.headers? headers
  let text ← renderFields (← readFields array size)
  if text.length < textBufferSize then
    Program.store buffer (.text text)
    Program.realloc buffer
  else Program.attempt (.error (.text .outOfBounds))

/-- The loop of `headers_destroy`. -/
def freeFields : List Field → Action Unit
  | [] => return ()
  | field :: fields => do
    Program.free field.name
    Program.free field.value
    freeFields fields

/-- `free` of a pointer that may be `NULL`. -/
def freePointer : Option ℕ → Action Unit
  | none => return ()
  | some p => Program.free p

/-- `headers_destroy`. -/
def headersDestroy (headers : ℕ) : Action Unit := do
  let (array, size) ← Program.load Object.headers? headers
  freeFields (← readFields array size)
  freePointer array
  Program.free headers

/-! ## Requests -/

/-- The body of the header loop of `request_parse`. -/
def parseHeader (headers line offset : ℕ) (st : CState) : Action (Bool × ℕ × CState) := do
  let (name, st) ← Program.attempt (onText (strtok (some line) (bytes ": ") st))
  let (value, st) ← Program.attempt (onText (strtok none [] st))
  let first ← Program.attempt (onText (readByte st.mem value))
  let value ← Program.attempt (onText
    (CString.readString st.mem (if first = 32 then value.map (· + 1) else value)))
  let name ← Program.attempt (onText (match name with
    | none => pure none
    | some p => some <$> CString.readString st.mem (some p)))
  headersSet headers name (some value)
  let blank ← Program.attempt (onText (startsWithCrlf st.mem offset))
  return (!blank, if blank then offset + 2 else offset, st)

/-- The header loop of `request_parse`. -/
def parseHeaders (headers : ℕ) : ℕ → ℕ → CState → Action (ℕ × CState)
  | 0, _, _ => Program.attempt (.error (.text .runsOn))
  | fuel + 1, offset, st => do
    let (line, st) ← Program.attempt (onText (strtok (some offset) (bytes "\r\n") st))
    match line with
    | none => return (offset, st)
    | some line => do
      let text ← Program.attempt (onText (CString.readString st.mem (some line)))
      if text.length = 0 then return (offset, st)
      else do
        let (goOn, offset, st) ← parseHeader headers line (offset + text.length + 2) st
        if goOn then parseHeaders headers fuel offset st else return (offset, st)

/-- `request_parse`. -/
def requestParse (buffer : ℕ) : Action ℕ := do
  let request ← Program.alloc .uninitialised
  let headers ← headersCreate
  Program.store request (.request { method := none, path := none, headers := headers, body := none })
  let mem ← readText buffer
  let (method, path, offset, st) ←
    Program.attempt (onText (parseStartLine { mem := mem, saved := none }))
  let method ← strdup method
  let path ← strdup path
  Program.store request
    (.request { method := some method, path := some path, headers := headers, body := none })
  let (offset, st) ← parseHeaders headers mem.length offset st
  let (body, st) ← Program.attempt (onText (strtok (some offset) [] st))
  let body ← Program.attempt (onText (match body with
    | none => pure []
    | some p => CString.readString st.mem (some p)))
  let body ← strdup body
  -- the cuts of `strtok`
  Program.store buffer (.text st.mem)
  Program.store request
    (.request { method := some method, path := some path, headers := headers, body := some body })
  return request

/-- `request_destroy`. -/
def requestDestroy (request : ℕ) : Action Unit := do
  let object ← Program.load Object.request? request
  Program.free (← nonNull object.method)
  Program.free (← nonNull object.path)
  headersDestroy object.headers
  freePointer object.body
  Program.free request

/-! ## Responses -/

/-- `response_create`. -/
def responseCreate : Action ℕ := do
  let response ← Program.alloc .uninitialised
  let headers ← headersCreate
  Program.store response
    (.response { status := 200, headers := headers, body := .null, bodyStream := none })
  return response

/-- The string at a pointer, or the empty one. -/
def readBody : BodyPointer → Action (List UInt8)
  | .null => return []
  | .literal text => return text
  | .heap p => readText p

/-- `response_to_string`. -/
def responseToString (response : ℕ) : Action ℕ := do
  let buffer ← strdup []
  let object ← Program.load Object.response? response
  let body ← readBody object.body
  let headers ← headersToString object.headers
  let lines ← readText headers
  let text := statusLine object.status ++ contentLength body ++ lines ++ bytes "\r\n" ++ body
  if text.length < textBufferSize then
    Program.store buffer (.text text)
    Program.free headers
    Program.realloc buffer
  else Program.attempt (.error (.text .outOfBounds))

/-- `response_destroy`. -/
def responseDestroy (response : ℕ) : Action Unit := do
  let object ← Program.load Object.response? response
  headersDestroy object.headers
  match object.body with
  | .null => pure ()
  | .literal _ => Program.attempt (.error .literalFreed)
  | .heap p => Program.free p
  Program.free response

/-! ## The handlers -/

/-- `middleware_logger_handler`. The line that it prints has the method and the path. -/
def middlewareLoggerHandler (request _response : ℕ) : Action Bool := do
  let object ← Program.load Object.request? request
  let _ ← readText (← nonNull object.method)
  let _ ← readText (← nonNull object.path)
  return true

/-- `headers_set(response->headers, "Content-Type", value)`. -/
def setContentType (response : ℕ) (value : List UInt8) : Action Unit := do
  let object ← Program.load Object.response? response
  headersSet object.headers (some (bytes "Content-Type")) (some value)

/-- `response->status = status` and `response->body = body`. -/
def setBody (response : ℕ) (status : ℤ) (body : BodyPointer) : Action Unit := do
  let object ← Program.load Object.response? response
  Program.store response (.response { object with status := status, body := body })

/-- `middleware_homepage_handler`. -/
def middlewareHomepageHandler (now : Tm) (request response : ℕ) : Action Bool := do
  let object ← Program.load Object.request? request
  let path ← readText (← nonNull object.path)
  if path = bytes "/" then
    setContentType response (bytes "text/html; charset=utf-8")
    let body ← strdup homepage
    let body ← Program.realloc body
    -- `strcat`
    let text ← readText body
    Program.store body (.text (text ++ asctime now))
    setBody response 200 (.heap body)
    return false
  else return true

/-- `middleware_404_handler`. -/
def middleware404Handler (_request response : ℕ) : Action Bool := do
  setContentType response (bytes "text/plain")
  let body ← strdup (bytes "404 Not Found!!\n")
  setBody response 404 (.heap body)
  return false

/-- `middleware_static_handler`. -/
def middlewareStaticHandler (fopen : List UInt8 → Option (List (List UInt8)))
    (request response : ℕ) : Action Bool := do
  let object ← Program.load Object.request? request
  let path ← readText (← nonNull object.path)
  let path := if path = bytes "/" then bytes "/index.html" else path
  let fullPath := bytes "public" ++ path
  let _ ← strdup fullPath
  if bytes ".." <:+: fullPath then
    setBody response 403 (.literal (bytes "403 Forbidden"))
    return true
  else
    match fopen fullPath with
    | none =>
      setBody response 404 (.literal (bytes "404 Not Found"))
      return true
    | some reads =>
      let file ← Program.alloc (.file reads)
      let object ← Program.load Object.response? response
      Program.store response (.response { object with bodyStream := some file })
      match strrchr path 46 with
      | none => Program.attempt (.error (.text .nullPointer))
      | some ext =>
        setContentType response (contentTypeOf ext)
        return true

/-- `middleware_test_handler`. -/
def middlewareTestHandler (request response : ℕ) : Action Bool := do
  setContentType response (bytes "text/plain")
  let body ← strdup []
  let object ← Program.load Object.request? request
  let headers ← headersToString object.headers
  let method ← readText (← nonNull object.method)
  let path ← readText (← nonNull object.path)
  let lines ← readText headers
  let content ← readText (← nonNull object.body)
  let text := bytes "You requested " ++ method ++ bytes " " ++ path ++
    bytes "\n---\nWith headers:\n" ++ lines ++ bytes "\n---\nBody:\n" ++ content
  if text.length < textBufferSize then
    Program.store body (.text text)
    Program.free headers
    let body ← Program.realloc body
    setBody response 200 (.heap body)
    return true
  else Program.attempt (.error (.text .outOfBounds))

/-- `middleware.handler`. -/
def handler (surroundings : Surroundings) (request response : ℕ) : Middleware → Action Bool
  | .logger => middlewareLoggerHandler request response
  | .homepage => middlewareHomepageHandler surroundings.now request response
  | .notFound => middleware404Handler request response
  | .serveStatic => middlewareStaticHandler surroundings.fopen request response
  | .test => middlewareTestHandler request response

/-! ## The client -/

/-- The loop of `handle_client`. -/
def runMiddlewares (surroundings : Surroundings) (request response : ℕ) :
    List Middleware → Action Unit
  | [] => return ()
  | middleware :: middlewares => do
    let turnOver ← handler surroundings request response middleware
    let object ← Program.load Object.response? response
    if ¬turnOver ∨ object.bodyStream.isSome then return ()
    else runMiddlewares surroundings request response middlewares

/-- The part of `handle_client` that writes the response. -/
def sendResponse (response : ℕ) : Action (List (List UInt8)) := do
  let object ← Program.load Object.response? response
  match object.bodyStream with
  | some stream => do
    let headers ← headersToString object.headers
    let lines ← readText headers
    Program.free headers
    let buffer ← strdup []
    let reads ← Program.load Object.file? stream
    Program.free buffer
    -- `fclose`
    Program.free stream
    return lines :: copied reads
  | none => do
    let string ← responseToString response
    let text ← readText string
    Program.free string
    return [text]

/-- `handle_client`, for the bytes that `read` returns, or for none if it fails: what it writes. -/
def handleClient (middlewares : List Middleware) (surroundings : Surroundings)
    (input : List UInt8) (arg : ℕ) : Action (List (List UInt8)) := do
  let _ ← Program.load Object.handlerArg? arg
  Program.free arg
  let buffer ← strdup []
  if input = [] then
    Program.free buffer
    return []
  else
    Program.store buffer (.text (receiveBuffer bufferSize input))
    let request ← requestParse buffer
    let response ← responseCreate
    runMiddlewares surroundings request response middlewares
    let writes ← sendResponse response
    responseDestroy response
    requestDestroy request
    Program.free buffer
    return writes

end NetworkServers.Http.RequestMemory
