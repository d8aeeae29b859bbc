import NetworkServers.Phase2.Platform

/-!
# Requests and Responses

Translation of `src/phase2/src/server/context.ts`: `parse`, the parts of a context that
are computed on demand, and the calls that a handler makes to answer.
-/

namespace NetworkServers.Phase2

open NetworkServers.Js

/-! ## parse -/

/-- One step of the `reduce` over the header lines. A key that objects inherit is truthy
but has no `push`, and the reduce throws. -/
def addHeader (acc : Dict JsString (List (Option JsString)))
    (entry : JsString × Option JsString) : Option (Dict JsString (List (Option JsString))) :=
  match property acc entry.1 with
  | .own values => some (acc.set entry.1 (values ++ [entry.2]))
  | .inherited => none
  | .missing => some (acc.set entry.1 [entry.2])

/-- `const [key, value] = text.split(sep)`. -/
def keyValue (sep text : JsString) : JsString × Option JsString :=
  ((split sep text).headD [], (split sep text)[1]?)

/-- `rest.slice(0, spliter)`, the header lines. -/
def headerLines (rest : List JsString) : List JsString :=
  match rest.findIdx? (· = []) with
  | some spliter => rest.take spliter
  -- without an empty line `spliter` is -1, and the last line is left out
  | none => rest.dropLast

/-- `rest.slice(spliter + 1)`, the lines of the body. -/
def bodyLines (rest : List JsString) : List JsString :=
  match rest.findIdx? (· = []) with
  | some spliter => rest.drop (spliter + 1)
  | none => rest

/-- `entries` of `parse`. -/
def headerEntry (p : Platform) (header : JsString) : JsString × Option JsString :=
  (p.toLowerCase (keyValue (js ": ") header).1, (keyValue (js ": ") header).2)

/-- `headers["host"][0] || "localhost"`, `none` where there is no such header. -/
def hostOf (headers : Dict JsString (List (Option JsString))) : Option JsString := do
  let values ← headers.get? (js "host")
  match values.head?.join with
  | none => some (js "localhost")
  | some host => some (if host = [] then js "localhost" else host)

/-- `parse`, `none` where it throws. -/
def parse (p : Platform) (request : JsString) : Option HTTPContext := do
  let lines := split (js "\r\n") request
  let start := lines.headD []
  let rest := lines.tail
  let (method, rawPath) := keyValue (js " ") start
  let headers ← ((headerLines rest).map (headerEntry p)).foldlM addHeader Dict.empty
  let body := (js "\r\n").intercalate (bodyLines rest)
  let host ← hostOf headers
  -- a missing path is converted to the string "undefined"
  let path ← p.newURL (rawPath.getD (js "undefined")) (js "http://" ++ host)
  return { method := p.toUpperCase method, path := path, headers := headers, body := body }

/-! ## Cookies and forms -/

/-- One step of the `reduce` over cookies or form fields. -/
def addField (acc : Dict JsString (Option JsString)) (text : JsString) :
    Dict JsString (Option JsString) :=
  assignField acc (keyValue (js "=") text).1 (keyValue (js "=") text).2

/-- `ctx.cookies`. -/
def HTTPContext.cookies (ctx : HTTPContext) : Dict JsString (Option JsString) :=
  match (ctx.headers.get? (js "cookie")).bind (fun values => values.head?.join) with
  | none => Dict.empty
  | some cookieHeader =>
    if cookieHeader = [] then Dict.empty
    else (split (js "; ") cookieHeader).foldl addField Dict.empty

/-- `ctx.form`. -/
def HTTPContext.form (ctx : HTTPContext) : Dict JsString (Option JsString) :=
  (split (js "&") ctx.body).foldl addField Dict.empty

/-- `ctx.cookies.user`. -/
def HTTPContext.userCookie (ctx : HTTPContext) : Option JsString := field ctx.cookies (js "user")

/-- `ctx.cookies.token`. -/
def HTTPContext.tokenCookie (ctx : HTTPContext) : Option JsString := field ctx.cookies (js "token")

/-! ## Answers -/

/-- The calls that write to the socket. The data of `write_body` is the chunk that
`Buffer.from` makes of it. -/
inductive Call where
  | writeHeaders (status : ℕ) (headers : List (JsString × JsString))
  | writeBody (data : List UInt8)
  | endBody
deriving DecidableEq, Repr

/-- The calls of one complete response. -/
def OneResponse (calls : List Call) : Prop :=
  ∃ status headers, ∃ bodies : List (List UInt8),
    calls = .writeHeaders status headers :: (bodies.map Call.writeBody ++ [.endBody])

end NetworkServers.Phase2
