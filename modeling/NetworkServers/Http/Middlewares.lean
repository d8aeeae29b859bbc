import Mathlib.Algebra.Ring.Int.Defs
import NetworkServers.Http.Request
import NetworkServers.Http.Response

/-!
# The Middlewares

Translation of the handlers under `src/src/middlewares/` and of the loop of `handle_client`
that runs them one after the other. What the handlers learn from outside, the local time and
the files, is given with the run. The line that the logger prints is left out.
-/

namespace NetworkServers.Http

open NetworkServers.CString

/-! ## What the handlers work on -/

/-- `struct tm` as `localtime` fills it in. -/
structure Tm where
  sec : Fin 61
  min : Fin 60
  hour : Fin 24
  mday : Fin 32
  mon : Fin 12
  /-- Years since 1900, an `int`. -/
  year : ℤ
  wday : Fin 7
  year_range : -2 ^ 31 ≤ year ∧ year < 2 ^ 31

/-- The world outside: the time, and the reads that a file which `fopen` finds gives. -/
structure Surroundings where
  now : Tm
  fopen : List UInt8 → Option (List (List UInt8))

/-- A response in the hands of the middlewares. Its body is a string of its own, or a literal
of the program. -/
structure Answer extends Response where
  literalBody : Bool

/-- What `handle_client` starts with. -/
def Answer.create : Answer := { responseCreate with literalBody := false }

/-- `headers_set(response->headers, name, value)`. -/
def Answer.setHeader (answer : Answer) (name value : List UInt8) : Answer :=
  { answer with headers := headersSet answer.headers (some name) (some value) }

/-! ## The handlers -/

/-- `middleware_logger_handler`. -/
def middlewareLoggerHandler (_request : Request) (response : Answer) : Bool × Answer :=
  (true, response)

/-- A number with characters in front of it, up to a width. -/
def padded (fill : UInt8) (width n : ℕ) : List UInt8 :=
  List.replicate (width - (decimal n).length) fill ++ decimal n

/-- `"%.3s"` of the name of a day. -/
def dayName (wday : Fin 7) : List UInt8 :=
  bytes (["Sun", "Mon", "Tue", "Wed", "Thu", "Fri", "Sat"].get wday)

/-- `"%.3s"` of the name of a month. -/
def monthName (mon : Fin 12) : List UInt8 :=
  bytes (["Jan", "Feb", "Mar", "Apr", "May", "Jun", "Jul", "Aug", "Sep", "Oct", "Nov",
    "Dec"].get mon)

/-- `asctime`, which is `"%.3s %.3s%3d %.2d:%.2d:%.2d %d\n"`. -/
def asctime (tm : Tm) : List UInt8 :=
  dayName tm.wday ++ bytes " " ++ monthName tm.mon ++ padded 32 3 tm.mday ++ bytes " " ++
    padded 48 2 tm.hour ++ bytes ":" ++ padded 48 2 tm.min ++ bytes ":" ++ padded 48 2 tm.sec ++
    bytes " " ++ decimal (1900 + tm.year) ++ bytes "\n"

/-- `HTML`. -/
def homepage : List UInt8 :=
  bytes "<h1>NTNU 41047029S Jacob Lin</h1>" ++
    bytes "<p>This is a simple web server written in C.</p>" ++
    bytes "<style>" ++ bytes "body \x7b background-color: #f0f0f0; font-family: sans-serif; \x7d" ++
    bytes "</style>"

/-- `middleware_homepage_handler`. -/
def middlewareHomepageHandler (now : Tm) (request : Request) (response : Answer) :
    Bool × Answer :=
  if request.path = bytes "/" then
    let response := response.setHeader (bytes "Content-Type") (bytes "text/html; charset=utf-8")
    (false, { response with status := 200, body := some (homepage ++ asctime now)
                            literalBody := false })
  else (true, response)

/-- `middleware_404_handler`. -/
def middleware404Handler (_request : Request) (response : Answer) : Bool × Answer :=
  let response := response.setHeader (bytes "Content-Type") (bytes "text/plain")
  (false, { response with status := 404, body := some (bytes "404 Not Found!!\n")
                          literalBody := false })

/-- `strrchr`: the string from the last occurrence of a byte on. -/
def strrchr (s : List UInt8) (c : UInt8) : Option (List UInt8) :=
  if c ∈ s then some (c :: (s.reverse.takeWhile (· ≠ c)).reverse) else none

/-- The path that `middleware_static_handler` hands to `fopen`. -/
def staticPath (request : Request) : List UInt8 :=
  if request.path = bytes "/" then bytes "/index.html" else request.path

/-- The content type for an extension. -/
def contentTypeOf (ext : List UInt8) : List UInt8 :=
  if ext = bytes ".html" then bytes "text/html"
  else if ext = bytes ".css" then bytes "text/css"
  else if ext = bytes ".js" then bytes "application/javascript"
  else if ext = bytes ".png" then bytes "image/png"
  else if ext = bytes ".jpg" then bytes "image/jpeg"
  else if ext = bytes ".ico" then bytes "image/x-icon"
  else []

/-- `middleware_static_handler`. -/
def middlewareStaticHandler (fopen : List UInt8 → Option (List (List UInt8))) (request : Request)
    (response : Answer) : Except Fault (Bool × Answer) :=
  let path := staticPath request
  let fullPath := bytes "public" ++ path
  -- prevent directory traversal
  if bytes ".." <:+: fullPath then
    return (true, { response with status := 403, body := some (bytes "403 Forbidden")
                                  literalBody := true })
  else
    match fopen fullPath with
    | none =>
      return (true, { response with status := 404, body := some (bytes "404 Not Found")
                                    literalBody := true })
    | some file =>
      match strrchr path 46 with
      -- `strcmp` gets what `strrchr` has returned
      | none => .error .nullPointer
      | some ext =>
        let response := response.setHeader (bytes "Content-Type") (contentTypeOf ext)
        return (true, { response with bodyStream := some file })

/-- The static handler opens nothing. -/
def Refused (fopen : List UInt8 → Option (List (List UInt8))) (request : Request) : Prop :=
  bytes ".." <:+: bytes "public" ++ staticPath request ∨
    fopen (bytes "public" ++ staticPath request) = none

instance (fopen : List UInt8 → Option (List (List UInt8))) (request : Request) :
    Decidable (Refused fopen request) :=
  inferInstanceAs (Decidable (_ ∨ _))

/-- The statuses and literals with which it goes on then. -/
def refusals : List (ℤ × List UInt8) :=
  [(403, bytes "403 Forbidden"), (404, bytes "404 Not Found")]

/-- The three ways in which the static handler ends: it sets a literal, runs into a path
without a dot, or sets the stream and leaves the body as it is. -/
theorem middlewareStaticHandler_cases (fopen : List UInt8 → Option (List (List UInt8)))
    (request : Request) (response : Answer) :
    (Refused fopen request ∧ ∃ refusal ∈ refusals,
      middlewareStaticHandler fopen request response = .ok (true, { response with
        status := refusal.1, body := some refusal.2, literalBody := true })) ∨
    (¬Refused fopen request ∧ 46 ∉ staticPath request ∧
      middlewareStaticHandler fopen request response = .error .nullPointer) ∨
    (¬Refused fopen request ∧ 46 ∈ staticPath request ∧ ∃ ext file,
      middlewareStaticHandler fopen request response = .ok (true,
        { response.setHeader (bytes "Content-Type") (contentTypeOf ext) with
          bodyStream := some file })) := by
  unfold middlewareStaticHandler strrchr
  dsimp only
  by_cases hdots : bytes ".." <:+: bytes "public" ++ staticPath request
  · rw [if_pos hdots]
    exact .inl ⟨.inl hdots, _, List.mem_cons_self, rfl⟩
  · rw [if_neg hdots]
    cases hfile : fopen (bytes "public" ++ staticPath request) with
    | none => exact .inl ⟨.inr hfile, _, List.mem_cons_of_mem _ List.mem_cons_self, rfl⟩
    | some file =>
      have hopened : ¬Refused fopen request := by
        simp [Refused, hdots, hfile]
      by_cases hdot : 46 ∈ staticPath request
      · rw [if_pos hdot]
        exact .inr (.inr ⟨hopened, hdot, _, file, rfl⟩)
      · rw [if_neg hdot]
        exact .inr (.inl ⟨hopened, hdot, rfl⟩)

/-- The text of `middleware_test_handler`. -/
def requestText (request : Request) (headers : List UInt8) : List UInt8 :=
  bytes "You requested " ++ request.method ++ bytes " " ++ request.path ++
    bytes "\n---\nWith headers:\n" ++ headers ++ bytes "\n---\nBody:\n" ++ request.body

/-- `middleware_test_handler`, as long as its text fits into its buffer together with its
NUL. -/
def middlewareTestHandler (request : Request) (response : Answer) :
    Except Fault (Bool × Answer) := do
  let response := response.setHeader (bytes "Content-Type") (bytes "text/plain")
  let headers ← headersToString request.headers
  let body := requestText request headers
  if body.length < textBufferSize then
    return (true, { response with status := 200, body := some body, literalBody := false })
  else .error .outOfBounds

/-! ## The chain -/

/-- The functions that can be given to `server_middlewares_add`. -/
inductive Middleware where
  | logger
  | homepage
  | notFound
  | serveStatic
  | test
deriving DecidableEq, Repr

/-- `middleware.handler`. -/
def Middleware.handler (surroundings : Surroundings) (request : Request) (response : Answer) :
    Middleware → Except Fault (Bool × Answer)
  | .logger => return middlewareLoggerHandler request response
  | .homepage => return middlewareHomepageHandler surroundings.now request response
  | .notFound => return middleware404Handler request response
  | .serveStatic => middlewareStaticHandler surroundings.fopen request response
  | .test => middlewareTestHandler request response

/-- The loop of `handle_client`. -/
def runMiddlewares (surroundings : Surroundings) (request : Request) :
    List Middleware → Answer → Except Fault Answer
  | [], response => return response
  | middleware :: middlewares, response => do
    let (turnOver, response) ← middleware.handler surroundings request response
    if ¬turnOver ∨ response.bodyStream.isSome then return response
    else runMiddlewares surroundings request middlewares response

/-- The size of the receive buffer of `server_config_create`. -/
def bufferSize : ℕ := 1024 * 1024

/-- What `handle_client` writes for the bytes that `read` has returned. -/
def handleClient (middlewares : List Middleware) (surroundings : Surroundings)
    (input : List UInt8) : Except Fault (List (List UInt8)) := do
  let request ← requestParse (receiveBuffer bufferSize input)
  let response ← runMiddlewares surroundings request middlewares Answer.create
  sendResponse response.toResponse

end NetworkServers.Http
