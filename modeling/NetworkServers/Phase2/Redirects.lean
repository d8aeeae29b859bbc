import NetworkServers.Phase2.Framing
import NetworkServers.Phase2.ParseRoundTrip
import NetworkServers.Phase2.UserRecords

/-!
# Following Redirects

The pages of the server send a client from one to the other: away from `/chat` without a
session, away from `/login` and `/register` with a known user, and from `/logout` to
`/login`. A client that follows them with its cookies always ends at an answer, after at
most two redirects: the redirects that take the cookies back leave it with the empty user
name, and there is no record under this name.
-/

namespace NetworkServers.Phase2

open NetworkServers.Js NetworkServers.Runs

/-! ## Cookies of a client -/

/-- The value of a cookie: any text of one line. -/
structure CookieValue where
  text : JsString
  oneLine : 13 ∉ text ∧ 10 ∉ text

/-- The cookies that a client has. -/
structure CookieJar where
  user : Option CookieValue
  token : Option CookieValue

namespace CookieJar

/-- The texts `name=value`. -/
def pairs (jar : CookieJar) : List JsString :=
  (jar.user.map fun value => js "user=" ++ value.text).toList ++
    (jar.token.map fun value => js "token=" ++ value.text).toList

/-- The value of the `Cookie` header, if there is one. -/
def cookieHeader (jar : CookieJar) : Option JsString :=
  if jar.pairs = [] then none else some ((js "; ").intercalate jar.pairs)

/-- The values that `parse` stores for the `Cookie` header. -/
def received (jar : CookieJar) : Option (List (Option JsString)) :=
  jar.cookieHeader.map fun text => [some ((split (js ": ") text).headD [])]

/-- Store the cookie of a `Set-Cookie` header, which may have an empty value. Its path is not
looked at: all cookies of the server are set with `Path=/`, so that a client has one cookie of
each name and sends it with every request. -/
def set (jar : CookieJar) (setCookie : JsString) : CookieJar :=
  let pair := (split (js ";") setCookie).headD []
  let name := pair.takeWhile (· ≠ 61)
  let text := (pair.dropWhile (· ≠ 61)).drop 1
  if h : 13 ∉ text ∧ 10 ∉ text then
    if name = js "user" then { jar with user := some ⟨text, h⟩ }
    else if name = js "token" then { jar with token := some ⟨text, h⟩ }
    else jar
  else jar

/-- Both cookies have been taken back. -/
def cleared : CookieJar where
  user := some ⟨[], by decide⟩
  token := some ⟨[], by decide⟩

end CookieJar

/-! ## A client that follows redirects -/

/-- The pages that redirect by the session. -/
def sessionPaths : List JsString :=
  [js "/chat", js "/login", js "/register", js "/logout", js "/chat-status"]

/-- A client: the text of its `GET` request for a page with its cookies. It may send any
other headers, and `parse` reads what it means. -/
structure Browser (p : Platform) where
  request : JsString → CookieJar → JsString
  reads : ∀ path ∈ sessionPaths, ∀ jar, ∃ ctx, parse p (request path jar) = some ctx ∧
    ctx.method = js "GET" ∧ ctx.path.pathname = path ∧
    ctx.headers.get? (js "cookie") = jar.received

/-- What a client asks for next, and the store that the server has then. -/
structure Visit where
  path : JsString
  jar : CookieJar
  store : Store

/-- The values of the headers with a name. -/
def headerValues (name : JsString) (headers : List (JsString × JsString)) : List JsString :=
  (headers.filter fun header => header.1.map asciiLower = name).map Prod.snd

/-- The target of a redirect and its headers, `none` for other answers. -/
def redirectOf : List Call → Option (JsString × List (JsString × JsString))
  | .writeHeaders status headers :: _ =>
    if status ∈ [301, 302, 303, 307, 308] then
      (headerValues (js "location") headers).head?.map fun location => (location, headers)
    else none
  | _ => none

/-- Follow a redirect, with the cookies that it sets. -/
def Visit.follow (v : Visit) (location : JsString) (headers : List (JsString × JsString))
    (store : Store) : Visit :=
  { path := location
    jar := (headerValues (js "set-cookie") headers).foldl CookieJar.set v.jar
    store := store }

namespace Browser

variable {p : Platform} (b : Browser p)

/-- The request is answered by something else than a redirect, whatever the handler finds
when it goes on. -/
def Answered (v : Visit) : Prop :=
  ∀ env, ∃ n, ∀ later : List (Env × Store), n ≤ later.length → ∃ calls,
    answer p (b.request v.path v.jar) env v.store later = some calls ∧ OneResponse calls ∧
      redirectOf calls = none

/-- The request is answered by a redirect, and the visit that it leads to is one of these. -/
def Redirected (v : Visit) (next : Visit → Prop) : Prop :=
  ∀ env later, ∃ calls location headers,
    answer p (b.request v.path v.jar) env v.store later = some calls ∧ OneResponse calls ∧
      redirectOf calls = some (location, headers) ∧
      next (v.follow location headers ((handle p (b.request v.path v.jar)).run env v.store).store)

/-- The client gets to an answer that is not a redirect, after at most `n` redirects. -/
def SettlesWithin : ℕ → Visit → Prop
  | 0, v => b.Answered v
  | n + 1, v => b.Answered v ∨ b.Redirected v (SettlesWithin n)

end Browser

/-! ## What the pages do -/

/-- A stretch of a `GET` request that ends in an answer other than a redirect. -/
inductive Shows : List Call → Next → Prop where
  | answered {calls : List Call} (h : OneResponse calls) (hredirect : redirectOf calls = none) :
      Shows calls .done
  | stream (header : JsString × JsString) (chunks : List (List UInt8)) :
      Shows [.writeHeaders 200 [header]] (.await (.stream chunks))
  | poll (size : ℕ) : Shows [] (.await (.changed size))

/-- A stretch that redirects. -/
def RedirectsTo (location : JsString) (headers : List (JsString × JsString))
    (calls : List Call) (next : Next) : Prop :=
  next = .done ∧ calls = response 302 ((js "Location", location) :: headers) []

/-- `register` and `login`, of a `GET` request. -/
def entryPage (p : Platform) (router : Router) (ctx : HTTPContext) : Prog Next := do
  let u ← userGet ctx.userCookie
  if u.isSome then redirect (js "/chat")
  else router.serveStatic p ctx.path.pathname

section Pages

variable {p : Platform} {router : Router} {ctx : HTTPContext} {env : Env} {s t : Store}

theorem register_get (hget : ctx.method = js "GET") :
    register p router ctx = entryPage p router ctx := by
  simp only [register, entryPage, if_pos hget]

theorem login_get (hget : ctx.method = js "GET") :
    login p router ctx = entryPage p router ctx := by
  simp only [login, entryPage, if_pos hget]

theorem notFound_shows : notFound.Ends env (fun _ => Shows) s [] := by
  simp only [notFound, ends_bind, ends_writeHeaders, ends_writeText, ends_endBody, ends_pure]
  exact .answered (oneResponse_body ..) rfl

theorem redirect_redirectsTo (location : JsString) (headers : List (JsString × JsString)) :
    (redirect location headers).Ends env (fun t calls next => t = s ∧
      RedirectsTo location headers calls next) s [] := by
  simp only [redirect, ends_bind, ends_writeHeaders, ends_endBody, ends_pure]
  exact ⟨trivial, rfl, rfl⟩

theorem serveStatic_shows (path : JsString) :
    (router.serveStatic p path).Ends env (fun _ => Shows) s [] := by
  unfold Router.serveStatic
  dsimp only
  split
  · simp only [ends_bind, ends_writeHeaders, ends_writeText, ends_endBody, ends_pure]
    exact .answered (oneResponse_body ..) rfl
  split
  · split
    · simp only [ends_bind, ends_writeHeaders, ends_writeText, ends_endBody, ends_pure]
      exact .answered (oneResponse_body ..) rfl
    · simp only [ends_bind, ends_writeHeaders, ends_pure]
      exact .stream _ _
  · exact notFound_shows

/-- A known user is sent to the chat. -/
theorem entryPage_known (hu : (getUser s.users ctx.userCookie).isSome) :
    (entryPage p router ctx).Ends env (fun t calls next => t = s ∧
      RedirectsTo (js "/chat") [] calls next) s [] := by
  simp only [entryPage, ends_bind, ends_userGet, if_pos hu]
  exact redirect_redirectsTo _ _

theorem entryPage_unknown (hu : getUser s.users ctx.userCookie = none) :
    (entryPage p router ctx).Ends env (fun _ => Shows) s [] := by
  simp only [entryPage, ends_bind, ends_userGet, hu, Option.isSome_none, Bool.false_eq_true,
    if_false]
  exact serveStatic_shows _

/-- What is behind the session check shows a page. -/
theorem serveChat_shows (hget : ctx.method = js "GET") (u : UserData) :
    (serveChat p router ctx u).Ends env (fun _ => Shows) s [] := by
  rw [serveChat, if_pos hget]
  simp only [ends_bind, ends_chatGet]
  split
  · split
    · exact notFound_shows
    · simp only [ends_bind, ends_writeHeaders, ends_writeText, ends_endBody, ends_pure]
      exact .answered (oneResponse_body ..) rfl
  · exact notFound_shows

theorem serveChatStatus_shows (hget : ctx.method = js "GET") (u : UserData) :
    (serveChatStatus ctx u).Ends env (fun _ => Shows) s [] := by
  rw [serveChatStatus, if_pos hget]
  simp only [ends_bind, ends_chatGet, ends_pure]
  exact .poll _

section Session

variable {serve : UserData → Prog Next}

theorem withSession_unknown (hu : getUser s.users ctx.userCookie = none) :
    (withSession ctx serve).Ends env (fun t calls next => t = s ∧
      RedirectsTo (js "/register") [] calls next) s [] := by
  simp only [withSession, ends_bind, ends_userGet, hu]
  exact redirect_redirectsTo _ _

theorem withSession_wrongToken {u : UserData} (hu : getUser s.users ctx.userCookie = some u)
    (htoken : ctx.tokenCookie ≠ u.token) :
    (withSession ctx serve).Ends env (fun t calls next => t = s ∧
      RedirectsTo (js "/login") clearCookies calls next) s [] := by
  simp only [withSession, ends_bind, ends_userGet, hu, if_pos htoken]
  exact redirect_redirectsTo _ _

theorem withSession_shows (h : PassesSession s.users ctx)
    (hserve : ∀ u, (serve u).Ends env (fun _ => Shows) s []) :
    (withSession ctx serve).Ends env (fun _ => Shows) s [] := by
  obtain ⟨u, hu, htoken⟩ := h
  simp only [withSession, ends_bind, ends_userGet, hu, if_neg (not_not.mpr htoken)]
  exact hserve u

end Session

/-- `/logout` keeps the table valid, whether it takes back a token or not. -/
theorem logout_redirectsTo (hvalid : UsersValid s.users) :
    (logout ctx).Ends env (fun t calls next => UsersValid t.users ∧
      RedirectsTo (js "/login") clearCookies calls next) s [] := by
  have hredirect : ∀ t : Store, UsersValid t.users →
      (redirect (js "/login") clearCookies).Ends env (fun t calls next => UsersValid t.users ∧
        RedirectsTo (js "/login") clearCookies calls next) t [] := by
    intro t ht
    simp only [redirect, ends_bind, ends_writeHeaders, ends_endBody, ends_pure]
    exact ⟨ht, rfl, rfl⟩
  simp only [logout, ends_bind, ends_userGet]
  split
  · rename_i u hu
    split
    · simp only [ends_bind, ends_userSet]
      exact hredirect _ (hvalid.setUser_loggedOut (hu ▸ hvalid.found ctx.userCookie))
    · exact hredirect s hvalid
  · exact hredirect s hvalid

end Pages

/-! ## Visits -/

section Visits

variable {p : Platform} {b : Browser p} {v : Visit}

/-- Reading a file comes to its end. -/
theorem exists_finish_stream (chunks : List (List UInt8)) {later : List (Env × Store)}
    (h : chunks.length < later.length) :
    ∃ calls, Next.finish p (.await (.stream chunks)) later = some calls := by
  induction chunks generalizing later with
  | nil =>
    obtain ⟨first, rest, rfl⟩ := List.exists_cons_of_length_pos h
    cases rest <;> exact ⟨_, rfl⟩
  | cons chunk chunks ih =>
    obtain ⟨first, rest, rfl⟩ := List.exists_cons_of_length_pos (Nat.lt_of_le_of_lt (Nat.zero_le _) h)
    obtain ⟨calls, hcalls⟩ := ih (Nat.lt_of_succ_lt_succ h)
    refine ⟨_, Option.map_eq_some_iff.mpr ⟨calls, hcalls, rfl⟩⟩

/-- A handler that shows something answers the request. -/
theorem answered_of_shows
    (h : ∀ env, (handle p (b.request v.path v.jar)).Ends env (fun _ => Shows) v.store []) :
    b.Answered v := by
  intro env
  obtain ⟨next, hresult, hshows⟩ := Prog.ends_iff.mp (h env)
  rw [List.nil_append] at hshows
  have hanswer : ∀ later, answer p (b.request v.path v.jar) env v.store later =
      (next.finish p later).map
        (callsOf ((handle p (b.request v.path v.jar)).run env v.store).effects ++ ·) := by
    intro later
    rw [answer, hresult]
  generalize callsOf ((handle p (b.request v.path v.jar)).run env v.store).effects = first
    at hshows hanswer
  cases hshows with
  | answered hone hredirect =>
    refine ⟨0, fun later _ => ⟨first, ?_, hone, hredirect⟩⟩
    rw [hanswer]
    cases later <;> simp [Next.finish]
  | stream header chunks =>
    refine ⟨chunks.length + 1, fun later hlater => ?_⟩
    obtain ⟨calls, hcalls⟩ := exists_finish_stream (p := p) chunks hlater
    rw [hanswer, hcalls, finish_stream hcalls]
    exact ⟨_, rfl, ⟨200, [header], chunks, rfl⟩, rfl⟩
  | poll size =>
    refine ⟨1, fun later hlater => ?_⟩
    obtain ⟨⟨env', s'⟩, rest, rfl⟩ := List.exists_cons_of_length_pos hlater
    -- with other records the answer is 200, and otherwise 304
    refine ⟨response (if size ≠ s'.chats.length then 200 else 304) [] [], ?_, ⟨_, [], [], rfl⟩, ?_⟩
    · rw [hanswer, Next.finish]
      cases rest <;> simp [Await.resume, changedNext, Prog.run_bind, Outcome.after, Next.finish,
        callsOf, response]
    · split <;> rfl

theorem redirectOf_response (location : JsString) (headers : List (JsString × JsString)) :
    redirectOf (response 302 ((js "Location", location) :: headers) []) =
      some (location, (js "Location", location) :: headers) := by
  have hname : (js "Location").map asciiLower = js "location" := by decide
  simp [redirectOf, response, headerValues, hname]

/-- A handler that redirects sends the browser on. -/
theorem redirected_of_ends {location : JsString} {headers : List (JsString × JsString)}
    {P : Store → Prop} {next : Visit → Prop}
    (h : ∀ env, (handle p (b.request v.path v.jar)).Ends env (fun t calls next => P t ∧
      RedirectsTo location headers calls next) v.store [])
    (hnext : ∀ t, P t → next (v.follow location ((js "Location", location) :: headers) t)) :
    b.Redirected v next := by
  intro env later
  obtain ⟨_, hresult, hP, rfl, hcalls⟩ := Prog.ends_iff.mp (h env)
  rw [List.nil_append] at hcalls
  refine ⟨_, location, _, ?_, ⟨302, _, [], rfl⟩, redirectOf_response location headers, hnext _ hP⟩
  rw [answer, hresult, hcalls]
  cases later <;> simp [Next.finish, response]

theorem Browser.Redirected.mono {next next' : Visit → Prop} (h : b.Redirected v next)
    (hnext : ∀ v', next v' → next' v') : b.Redirected v next' := by
  intro env later
  obtain ⟨calls, location, headers, hanswer, hone, hredirect, hv⟩ := h env later
  exact ⟨calls, location, headers, hanswer, hone, hredirect, hnext _ hv⟩

/-- Allowing one more redirect. -/
theorem Browser.SettlesWithin.succ {n : ℕ} (h : b.SettlesWithin n v) : b.SettlesWithin (n + 1) v := by
  induction n generalizing v with
  | zero => exact .inl h
  | succ n ih => exact h.imp_right fun hredirected => hredirected.mono fun _ => ih

/-- The handler of a page runs for the request of a browser. -/
theorem handle_ends (route : Route) {router : Router} {ctx : HTTPContext} {text : JsString}
    {env : Env} {s : Store} {Q : Store → List Call → Next → Prop} (hrouter : makeRouter p = some router)
    (hparse : parse p text = some ctx) (hpath : ctx.path.pathname = route.path)
    (h : (route.handler p router ctx).Ends env Q s []) : (handle p text).Ends env Q s [] := by
  have hroute := (overrides_eq_some_iff hrouter _ route).mpr hpath
  simp only [handle, hparse, hrouter, ends_bind, ends_require, Option.some.injEq, exists_eq_left',
    Router.handle, hroute]
  exact h

/-- Both entry pages are the same for a `GET` request. -/
theorem handle_entry {router : Router} {ctx : HTTPContext} {text : JsString} {env : Env} {s : Store}
    {Q : Store → List Call → Next → Prop} (hrouter : makeRouter p = some router)
    (hparse : parse p text = some ctx) (hget : ctx.method = js "GET")
    (hpath : ctx.path.pathname = js "/login" ∨ ctx.path.pathname = js "/register")
    (h : (entryPage p router ctx).Ends env Q s []) : (handle p text).Ends env Q s [] := by
  rcases hpath with hpath | hpath
  · apply handle_ends .login hrouter hparse hpath
    rwa [Route.handler, login_get hget]
  · apply handle_ends .register hrouter hparse hpath
    rwa [Route.handler, register_get hget]

/-! ## Cookies and the user table -/

/-- No context with these cookies belongs to a user of the table. -/
def CookieJar.Unknown (jar : CookieJar) (users : UserTable) : Prop :=
  ∀ ctx : HTTPContext, ctx.headers.get? (js "cookie") = jar.received →
    getUser users ctx.userCookie = none

theorem cookies_congr {ctx ctx' : HTTPContext}
    (h : ctx.headers.get? (js "cookie") = ctx'.headers.get? (js "cookie")) :
    ctx.cookies = ctx'.cookies := by
  rw [HTTPContext.cookies, HTTPContext.cookies, h]

/-- One context with the cookies tells what all of them do. -/
theorem CookieJar.unknown_of_getUser {jar : CookieJar} {users : UserTable} {ctx : HTTPContext}
    (hcookie : ctx.headers.get? (js "cookie") = jar.received)
    (h : getUser users ctx.userCookie = none) : jar.Unknown users := by
  intro ctx' hcookie'
  have hcookies : ctx'.cookies = ctx.cookies := cookies_congr (hcookie'.trans hcookie.symm)
  rwa [HTTPContext.userCookie, hcookies]

/-- There is no record under the empty name. -/
theorem UsersValid.getUser_empty {users : UserTable} (h : UsersValid users) :
    getUser users (some []) = none := by
  have hfound := h.found (some [])
  cases hget : getUser users (some []) with
  | none => rfl
  | some u =>
    rw [hget] at hfound
    rcases hfound with hu | ⟨hkey, -⟩
    · -- a name has at least three characters
      exact absurd hu.name.length.1 (by decide)
    · exact absurd hkey (by decide)

/-- With both cookies taken back nobody is known. -/
theorem unknown_cleared {users : UserTable} (h : UsersValid users) :
    CookieJar.cleared.Unknown users := by
  intro ctx hcookie
  have hempty : ctx.userCookie = some [] := by
    rw [HTTPContext.userCookie, HTTPContext.cookies, hcookie]
    rfl
  rw [hempty]
  exact h.getUser_empty

theorem follow_clearCookies (location : JsString) (t : Store) :
    v.follow location ((js "Location", location) :: clearCookies) t =
      { path := location, jar := CookieJar.cleared, store := t } := rfl

theorem follow_plain (location : JsString) (t : Store) :
    v.follow location [(js "Location", location)] t =
      { path := location, jar := v.jar, store := t } := rfl

/-! ## Settling -/

section Settling

variable {router : Router}

/-- The entry pages show themselves to anybody who is not known. -/
theorem answered_of_unknown (hrouter : makeRouter p = some router)
    (hpath : v.path = js "/login" ∨ v.path = js "/register")
    (hunknown : v.jar.Unknown v.store.users) : b.Answered v := by
  have hpage : v.path ∈ sessionPaths := by
    rcases hpath with h | h <;> rw [h] <;> decide
  obtain ⟨ctx, hparse, hget, hread, hcookie⟩ := b.reads v.path hpage v.jar
  apply answered_of_shows
  intro env
  apply handle_entry hrouter hparse hget (hread ▸ hpath)
  exact entryPage_unknown (hunknown ctx hcookie)

/-- `/login` with both cookies taken back. -/
theorem answered_cleared (hrouter : makeRouter p = some router) {t : Store}
    (ht : UsersValid t.users) :
    b.Answered { path := js "/login", jar := CookieJar.cleared, store := t } :=
  answered_of_unknown hrouter (.inl rfl) (unknown_cleared ht)

/-- The pages behind the session check send the browser to an entry page that shows
itself. -/
theorem settles_session (hrouter : makeRouter p = some router) (hvalid : UsersValid v.store.users)
    (hpath : v.path = js "/chat" ∨ v.path = js "/chat-status") : b.SettlesWithin 1 v := by
  have hpage : v.path ∈ sessionPaths := by
    rcases hpath with h | h <;> rw [h] <;> decide
  obtain ⟨ctx, hparse, hget, hread, hcookie⟩ := b.reads v.path hpage v.jar
  -- both handlers are the session check with something behind it that shows a page
  have hcheck : ∃ serve : UserData → Prog Next,
      (∀ u env, (serve u).Ends env (fun _ => Shows) v.store []) ∧
      ∀ env Q, (withSession ctx serve).Ends env Q v.store [] →
        (handle p (b.request v.path v.jar)).Ends env Q v.store [] := by
    rcases hpath with h | h
    · refine ⟨serveChat p router ctx, fun u _ => serveChat_shows hget u, fun env Q => ?_⟩
      exact handle_ends .chatroom hrouter hparse (hread.trans h)
    · refine ⟨serveChatStatus ctx, fun u _ => serveChatStatus_shows hget u, fun env Q => ?_⟩
      exact handle_ends .chatStatus hrouter hparse (hread.trans h)
  obtain ⟨serve, hserve, hends⟩ := hcheck
  cases hu : getUser v.store.users ctx.userCookie with
  | none =>
    refine .inr (redirected_of_ends (fun env => hends env _ (withSession_unknown hu)) ?_)
    rintro t rfl
    rw [follow_plain]
    exact answered_of_unknown hrouter (.inr rfl) (CookieJar.unknown_of_getUser hcookie hu)
  | some u =>
    by_cases htoken : ctx.tokenCookie = u.token
    · apply Or.inl
      apply answered_of_shows
      exact fun env => hends env _ (withSession_shows ⟨u, hu, htoken⟩ fun u => hserve u env)
    · refine .inr (redirected_of_ends (fun env => hends env _ (withSession_wrongToken hu htoken)) ?_)
      rintro t rfl
      rw [follow_clearCookies]
      exact answered_cleared hrouter hvalid

/-- The entry pages send a known user to the chat. -/
theorem settles_entry (hrouter : makeRouter p = some router) (hvalid : UsersValid v.store.users)
    (hpath : v.path = js "/login" ∨ v.path = js "/register") : b.SettlesWithin 2 v := by
  have hpage : v.path ∈ sessionPaths := by
    rcases hpath with h | h <;> rw [h] <;> decide
  obtain ⟨ctx, hparse, hget, hread, hcookie⟩ := b.reads v.path hpage v.jar
  cases hu : getUser v.store.users ctx.userCookie with
  | none =>
    exact .inl (answered_of_unknown hrouter hpath (CookieJar.unknown_of_getUser hcookie hu))
  | some u =>
    have hknown : (getUser v.store.users ctx.userCookie).isSome := by
      rw [hu]
      rfl
    have hends : ∀ env, (handle p (b.request v.path v.jar)).Ends env (fun t calls next =>
        t = v.store ∧ RedirectsTo (js "/chat") [] calls next) v.store [] := by
      intro env
      apply handle_entry hrouter hparse hget (hread ▸ hpath)
      exact entryPage_known hknown
    refine .inr (redirected_of_ends hends ?_)
    rintro t rfl
    rw [follow_plain]
    exact settles_session hrouter hvalid (.inl rfl)

/-- `/logout` takes the cookies back, and the token of the record. -/
theorem settles_logout (hrouter : makeRouter p = some router) (hvalid : UsersValid v.store.users)
    (hpath : v.path = js "/logout") : b.SettlesWithin 1 v := by
  have hpage : v.path ∈ sessionPaths := by
    rw [hpath]
    decide
  obtain ⟨ctx, hparse, -, hread, -⟩ := b.reads v.path hpage v.jar
  have hends : ∀ env, (handle p (b.request v.path v.jar)).Ends env (fun t calls next =>
      UsersValid t.users ∧ RedirectsTo (js "/login") clearCookies calls next) v.store [] := by
    intro env
    apply handle_ends .logout hrouter hparse (hread.trans hpath)
    exact logout_redirectsTo hvalid
  refine .inr (redirected_of_ends hends fun t ht => ?_)
  rw [follow_clearCookies]
  exact answered_cleared hrouter ht

/-- **Redirects settle**: on every user table that the handlers of any number of workers
can reach, and with every pair of cookies, a browser that starts at one of these pages and
follows all redirects gets to an answer that is not a redirect after at most two of them. -/
theorem redirects_settle {ω : Type} [DecidableEq ω] {ls : List (ClusterLabel ω)} {s : Cluster ω}
    (hrun : ClusterReaches p ls s) (hsite : (makeRouter p).isSome) (b : Browser p)
    {path : JsString} (hpath : path ∈ sessionPaths) (jar : CookieJar) :
    b.SettlesWithin 2 { path := path, jar := jar, store := s.store } := by
  have hvalid := (clusterInv hrun).users
  obtain ⟨router, hrouter⟩ := Option.isSome_iff_exists.mp hsite
  simp only [sessionPaths, List.mem_cons, List.not_mem_nil, or_false] at hpath
  rcases hpath with rfl | rfl | rfl | rfl | rfl
  · exact (settles_session hrouter hvalid (.inl rfl)).succ
  · exact settles_entry hrouter hvalid (.inl rfl)
  · exact settles_entry hrouter hvalid (.inr rfl)
  · exact (settles_logout hrouter hvalid rfl).succ
  · exact (settles_session hrouter hvalid (.inr rfl)).succ

end Settling

end Visits

/-! ## A browser that sends only what it needs -/

/-- The host part of the URLs of a site. -/
structure Site (p : Platform) where
  host : JsString
  host_ne : host ≠ []
  host_line : 13 ∉ host ∧ 10 ∉ host
  host_plain : ¬js ": " <:+: host
  urls : ∀ path ∈ sessionPaths,
    p.newURL path (js "http://" ++ host) = some { pathname := path }

section Plain

variable {p : Platform}

theorem CookieJar.pairs_line {jar : CookieJar} {pair : JsString} (h : pair ∈ jar.pairs) :
    13 ∉ pair ∧ 10 ∉ pair := by
  have hname : ∀ name : JsString, 13 ∉ name ∧ 10 ∉ name → ∀ value : CookieValue,
      13 ∉ name ++ value.text ∧ 10 ∉ name ++ value.text := by
    intro name hname value
    simp only [List.mem_append, not_or]
    exact ⟨⟨hname.1, value.oneLine.1⟩, hname.2, value.oneLine.2⟩
  rcases List.mem_append.mp h with h | h
  · obtain ⟨value, -, rfl⟩ := Option.map_eq_some_iff.mp (Option.mem_toList.mp h)
    exact hname _ (by decide) value
  · obtain ⟨value, -, rfl⟩ := Option.map_eq_some_iff.mp (Option.mem_toList.mp h)
    exact hname _ (by decide) value

theorem CookieJar.cookieHeader_line {jar : CookieJar} {text : JsString}
    (h : jar.cookieHeader = some text) : 13 ∉ text ∧ 10 ∉ text := by
  unfold cookieHeader at h
  split at h
  · cases h
  obtain rfl := Option.some.inj h
  -- the pairs are of one line, and so is what stands between them
  have hjoined : ∀ c : UInt16, c ∉ js "; " → (∀ pair ∈ jar.pairs, c ∉ pair) →
      c ∉ (js "; ").intercalate jar.pairs := by
    intro c hsep hpairs hmem
    rcases mem_intercalate hmem with h | ⟨pair, hpair, h⟩
    · exact hsep h
    · exact hpairs pair hpair h
  exact ⟨hjoined 13 (by decide) fun _ h => (pairs_line h).1,
    hjoined 10 (by decide) fun _ h => (pairs_line h).2⟩

namespace Site

variable (site : Site p)

def hostField : HeaderField where
  name := js "Host"
  value := site.host
  name_token := host_token
  value_line := site.host_line

def cookieField {jar : CookieJar} {text : JsString} (h : jar.cookieHeader = some text) :
    HeaderField where
  name := js "Cookie"
  value := text
  name_token := isToken_of_all (by decide) (by decide)
  value_line := CookieJar.cookieHeader_line h

/-- A `Host` header, and a `Cookie` header if there are cookies. -/
def fields (jar : CookieJar) : List HeaderField :=
  match h : jar.cookieHeader with
  | none => [site.hostField]
  | some _ => [site.hostField, cookieField h]

/-- A request without other headers and without a body. -/
def request (path : JsString) (jar : CookieJar) : JsString :=
  ((js "GET " ++ path ++ js " HTTP/1.1") :: (site.fields jar).map HeaderField.line).flatMap
    (· ++ js "\r\n") ++ js "\r\n"

theorem key_hostField : site.hostField.key = js "host" :=
  show (js "Host").map asciiLower = js "host" by decide

theorem received_hostField : site.hostField.received = site.host :=
  (received_eq_iff site.hostField).mpr site.host_plain

theorem fields_cases (jar : CookieJar) :
    (jar.cookieHeader = none ∧ site.fields jar = [site.hostField]) ∨
    ∃ f : HeaderField, f.key = js "cookie" ∧ jar.cookieHeader = some f.value ∧
      site.fields jar = [site.hostField, f] := by
  unfold fields
  split
  · rename_i h
    exact .inl ⟨h, rfl⟩
  · rename_i text h
    have hkey : (cookieField h).key = js "cookie" :=
      show (js "Cookie").map asciiLower = js "cookie" by decide
    exact .inr ⟨cookieField h, hkey, h, rfl⟩

theorem fields_names (jar : CookieJar) : ∀ f ∈ site.fields jar, f.key ∉ objectPrototype := by
  have hhost : site.hostField.key ∉ objectPrototype := by
    rw [key_hostField]
    decide
  rcases site.fields_cases jar with ⟨-, hfields⟩ | ⟨f, hkey, -, hfields⟩
  · rw [hfields]
    exact List.forall_mem_singleton.mpr hhost
  · have hcookie : f.key ∉ objectPrototype := by
      rw [hkey]
      decide
    rw [hfields]
    exact List.forall_mem_cons.mpr ⟨hhost, List.forall_mem_singleton.mpr hcookie⟩

theorem exists_fields (jar : CookieJar) : ∃ rest, site.fields jar = site.hostField :: rest := by
  rcases site.fields_cases jar with ⟨-, hfields⟩ | ⟨f, -, -, hfields⟩
  · exact ⟨_, hfields⟩
  · exact ⟨_, hfields⟩

/-- The request for a page, as a rendered one. -/
def textRequest {path : JsString} (hpath : path ∈ sessionPaths) (jar : CookieJar) :
    TextRequest where
  method := js "GET"
  path := path
  fields := site.fields jar
  body := []
  method_token := get_token
  path_visible := by
    have hall : sessionPaths.all fun path => path.all fun c => decide (33 ≤ c) := by decide
    exact List.all_iff_forall_prop.mp (List.all_eq_true.mp hall path hpath)
  host := by
    obtain ⟨rest, hfields⟩ := site.exists_fields jar
    rw [hfields]
    exact ⟨_, List.mem_cons_self, site.key_hostField⟩

theorem text_textRequest {path : JsString} (hpath : path ∈ sessionPaths) (jar : CookieJar) :
    (site.textRequest hpath jar).text = site.request path jar := rfl

/-- `parse` reads the request for a page. -/
theorem reads {path : JsString} (hpath : path ∈ sessionPaths) (jar : CookieJar) :
    ∃ ctx, parse p (site.request path jar) = some ctx ∧ ctx.method = js "GET" ∧
      ctx.path.pathname = path ∧ ctx.headers.get? (js "cookie") = jar.received := by
  rw [← site.text_textRequest hpath jar]
  have hsame : (site.textRequest hpath jar).fields = site.fields jar := rfl
  have hhost : requestHost p (site.textRequest hpath jar).text = site.host := by
    obtain ⟨rest, hfields⟩ := site.exists_fields jar
    rw [requestHost, TextRequest.headerEntries_text, hsame, hfields]
    simp [key_hostField, received_hostField, site.host_ne]
  -- the browser's own assumption about `new URL`, for the host that `parse` finds
  have hparseable : Parseable p (site.textRequest hpath jar).text := by
    apply (TextRequest.parseable_text_iff _).mpr
    refine ⟨site.fields_names jar, ?_⟩
    rw [hhost]
    exact Option.isSome_iff_exists.mpr ⟨_, site.urls path hpath⟩
  obtain ⟨ctx, hparse⟩ := Option.isSome_iff_exists.mp ((parse_isSome_iff p _).mpr hparseable)
  obtain ⟨hmethod, -, hurl, hget⟩ := TextRequest.parse_text _ hparse
  rw [hhost] at hurl
  refine ⟨ctx, hparse, hmethod, ?_, ?_⟩
  · rw [← Option.some.inj ((site.urls path hpath).symm.trans hurl)]
  · have hother : site.hostField.key ≠ js "cookie" := by
      rw [key_hostField]
      decide
    -- no cookies, no header: `parse` has no entry, and the handler sees no cookie
    rw [hget, CookieJar.received, hsame]
    rcases site.fields_cases jar with ⟨hnone, hfields⟩ | ⟨f, hkey, hsome, hfields⟩
    · rw [hfields, hnone]
      simp [hother, moreValues]
    · rw [hfields, hsome]
      simp [hother, hkey, moreValues, HeaderField.received]

/-- The browser that sends these requests. -/
def browser : Browser p where
  request := site.request
  reads := fun _ hpath jar => site.reads hpath jar

end Site

end Plain

/-- A site for examples. -/
def sampleSite : Site samplePlatform where
  host := js "localhost"
  host_ne := by decide
  host_line := localhost_line
  host_plain := fun h => absurd (h.subset (List.mem_cons_self : 58 ∈ js ": ")) (by decide)
  urls := by decide

/-- Alice is registered, and the browser has her name but no token. -/
theorem redirects_settle_alice :
    ∃ s : Cluster Bool, (s.store.users.get? (js "alice")).isSome ∧
      sampleSite.browser.SettlesWithin 2
        { path := js "/login"
          jar := { user := some { text := js "alice", oneLine := by decide }, token := none }
          store := s.store } := by
  have hrun : ((registerAndReply.foldlM (Cluster.step samplePlatform)
      (Cluster.initial Store.initial)).map
      fun s => (s.store.users.get? (js "alice")).isSome) = some true := by decide +kernel
  obtain ⟨s, hs, halice⟩ := Option.map_eq_some_iff.mp hrun
  refine ⟨s, halice, ?_⟩
  exact redirects_settle (Run.of_foldlM hs) (by decide +kernel) sampleSite.browser (by decide) _

end NetworkServers.Phase2
