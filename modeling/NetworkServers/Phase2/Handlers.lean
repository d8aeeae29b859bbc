import NetworkServers.Phase2.Router

/-!
# The Route Handlers

Translation of the handlers under `src/phase2/src/server/dynamic`, each up to its first
`await`, and of what they do when the awaited value is there.
-/

namespace NetworkServers.Phase2

open NetworkServers.Js
open Prog (require)

/-- The `Set-Cookie` headers that take the cookies back. -/
def clearCookies : List (JsString × JsString) :=
  [(js "Set-Cookie", js "user=; Path=/; HttpOnly"),
    (js "Set-Cookie", js "token=; Path=/; HttpOnly")]

/-- `` `${text}` `` of a string that may be `undefined`. -/
def display (text : Option JsString) : JsString := text.getD (js "undefined")

/-! ## register.ts -/

/-- `register`. -/
def register (p : Platform) (router : Router) (ctx : HTTPContext) : Prog Next := do
  let u ← userGet ctx.userCookie
  if u.isSome then redirect (js "/chat")
  else if ctx.method = js "GET" then router.serveStatic p ctx.path.pathname
  else if ctx.method = js "POST" then
    let username ← require (field ctx.form (js "username"))
    if username.length < 3 ∨ username.length > 32 then
      redirect (js "/register?msg=Username must be 3 ~ 32 characters")
    else
      let password ← require (field ctx.form (js "password"))
      if password.length < 8 ∨ password.length > 64 then
        redirect (js "/register?msg=Password must be 8 ~ 64 characters")
      else if username = js "GPT" then redirect (js "/register?msg=You cannot register as GPT")
      else
        let u ← userGet (some username)
        if u.isSome then redirect (js "/login?msg=User already exists")
        else return .await (.register username password)
  else notFound

/-- The password field of a record: the digest in hexadecimal. -/
def passwordHash (p : Platform) (password : JsString) : JsString :=
  hexEncode (p.sha256 (utf8Encode password))

/-- The rest of `register`. -/
def registerDigest (p : Platform) (username password : JsString) : Prog Next := do
  userSet (some username)
    { id := some (some username), password := some (some (passwordHash p password)) }
  redirect (js "/login")

/-! ## login.ts -/

/-- `login`. -/
def login (p : Platform) (router : Router) (ctx : HTTPContext) : Prog Next := do
  let u ← userGet ctx.userCookie
  if u.isSome then redirect (js "/chat")
  else if ctx.method = js "GET" then router.serveStatic p ctx.path.pathname
  else if ctx.method = js "POST" then
    let username := field ctx.form (js "username")
    match ← userGet username with
    | none => redirect (js "/register?msg=User not found")
    | some u =>
      -- `Buffer.from(undefined)` throws
      let password ← require (field ctx.form (js "password"))
      return .await (.login username password u)
  else notFound

/-- The token made of a random UUID. -/
def tokenOf (uuid : Uuid) : JsString := hexEncode (utf8Encode uuid.text)

/-- The `Set-Cookie` headers of a session. -/
def sessionCookies (username : Option JsString) (token : JsString) :
    List (JsString × JsString) :=
  [(js "Set-Cookie", js "user=" ++ display username ++ js "; Path=/; HttpOnly"),
    (js "Set-Cookie", js "token=" ++ token ++ js "; Path=/; HttpOnly")]

/-- The rest of `login`. -/
def loginDigest (p : Platform) (username : Option JsString) (password : JsString)
    (u : UserData) : Prog Next := do
  if u.password ≠ some (passwordHash p password) then
    redirect (js "/login?msg=Incorrect password")
  else
    let token := tokenOf (← randomUUID)
    userSet username { u.spread with token := some (some token) }
    redirect (js "/chat") (sessionCookies username token)

/-! ## logout.ts -/

/-- `logout`. -/
def logout (ctx : HTTPContext) : Prog Next := do
  match ← userGet ctx.userCookie with
  | some u =>
    if ctx.tokenCookie = u.token then
      userSet ctx.userCookie { u.spread with token := some none }
      redirect (js "/login") clearCookies
    else redirect (js "/login") clearCookies
  | none => redirect (js "/login") clearCookies

/-! ## chat.ts -/

/-- The text of one record in the chat page. -/
def chatLine (p : Platform) (c : ChatData) : JsString :=
  js "<div><b>" ++ display c.user ++ js "</b>: " ++
    replaceChar 62 (js "&gt;") (replaceChar 60 (js "&lt;") c.message) ++
    js " (" ++ p.toLocaleString c.timestamp ++ js ")</div>"

/-- The posted message: `decodeURIComponent(form.message.replace(/\+/g, " "))` and at
most 1024 code units of it. `none` where it throws. -/
def postedMessage (ctx : HTTPContext) : Option JsString := do
  let message ← field ctx.form (js "message")
  let text ← decodeURIComponent (replaceChar 43 (js " ") message)
  return text.take 1024

/-- The session check of `chatroom` and `chat_status`: what comes behind it gets the
record that is found for the cookie `user`, if the cookie `token` is its token. -/
def withSession (ctx : HTTPContext) (serve : UserData → Prog Next) : Prog Next := do
  match ← userGet ctx.userCookie with
  | none => redirect (js "/register")
  | some u =>
    if ctx.tokenCookie ≠ u.token then redirect (js "/login") clearCookies
    else serve u

/-- `chatroom` behind its session check. -/
def serveChat (p : Platform) (router : Router) (ctx : HTTPContext) (u : UserData) :
    Prog Next := do
  if ctx.method = js "GET" then
    let chats ← chatGet
    let text := (js "\n").intercalate (chats.map (chatLine p))
    match router.renderStatic p ctx.path.pathname (Dict.empty.set (js "chats") text) with
    | some html =>
      -- an empty page is falsy
      if html = [] then notFound
      else
        writeHeaders 200 [(js "Content-Type", js "text/html")]
        writeText html
        endBody
        return .done
    | none => notFound
  else if ctx.method = js "POST" then
    let message ← require (postedMessage ctx)
    chatAdd { user := u.id, message := message, timestamp := ← dateNow }
    if (js "@gpt").isPrefixOf (p.toLowerCase message) then
      startGpt
      redirect (js "/chat")
    else redirect (js "/chat")
  -- other methods are not answered
  else return .done

/-- `chatroom`. -/
def chatroom (p : Platform) (router : Router) (ctx : HTTPContext) : Prog Next :=
  withSession ctx (serveChat p router ctx)

/-! ## chat-status.ts -/

/-- `chat_status` behind its session check. -/
def serveChatStatus (ctx : HTTPContext) (_u : UserData) : Prog Next := do
  if ctx.method = js "GET" then
    let chats ← chatGet
    return .await (.changed chats.length)
  else notFound

/-- `chat_status`. -/
def chatStatus (ctx : HTTPContext) : Prog Next := withSession ctx (serveChatStatus ctx)

/-- The answer once `changed()` has settled. -/
def changedNext (size : ℕ) : Prog Next := do
  let chats ← chatGet
  writeHeaders (if size ≠ chats.length then 200 else 304)
  endBody
  return .done

/-! ## reflect.ts and compute-sqrt.ts -/

/-- `reflect`. -/
def reflect (p : Platform) (ctx : HTTPContext) : Prog Next := do
  writeHeaders 200 [(js "Content-Type", js "application/json")]
  writeText (← require (p.stringify ctx))
  endBody
  return .done

/-- `compute_sqrt`. -/
def computeSqrt (p : Platform) : Prog Next := do
  writeHeaders 200 [(js "Content-Type", js "text/plain")]
  writeText (js "Sum of square roots from 0 to 100,000,000 is " ++ p.sqrtSum ++ js "\n")
  endBody
  return .done

/-! ## All handlers -/

/-- The handler that a route names. -/
def Route.handler (p : Platform) (router : Router) (ctx : HTTPContext) : Route → Prog Next
  | .reflect => Phase2.reflect p ctx
  | .computeSqrt => Phase2.computeSqrt p
  | .register => Phase2.register p router ctx
  | .login => Phase2.login p router ctx
  | .logout => Phase2.logout ctx
  | .chatroom => Phase2.chatroom p router ctx
  | .chatStatus => Phase2.chatStatus ctx

/-- What a handler does when the value it waits for is there. -/
def Await.resume (p : Platform) : Await → Prog Next
  | .register username password => registerDigest p username password
  | .login username password u => loginDigest p username password u
  | .stream chunks => streamNext chunks
  | .changed size => changedNext size

end NetworkServers.Phase2
