import NetworkServers.Phase2.PostedMessages
import NetworkServers.Phase2.Redirects

/-!
# A Visitor with an Account

A visitor registers, logs in with the same form, keeps the cookies it is given, and posts
messages, while the process serves any other requests in between. As long as nobody else writes
the record of its name, every page answers it as meant: it is registered, logged in, and each of
its messages is stored under its name as it was typed.
-/

namespace NetworkServers.Phase2

open NetworkServers.Js NetworkServers.Runs

/-! ## Accounts -/

/-- A name and a password that pass the checks of `register`, written so that a form field, which
is not decoded, and a cookie can carry them. -/
structure Account where
  name : JsString
  password : JsString
  name_length : 3 ≤ name.length ∧ name.length ≤ 32
  name_notGpt : name ≠ js "GPT"
  name_own : name ∉ objectPrototype
  /-- No line end and none of `&`, `:`, `;` and `=`. -/
  name_plain : ∀ c ∈ name, c ∉ [13, 10, 38, 58, 59, 61]
  password_length : 8 ≤ password.length ∧ password.length ≤ 64
  password_plain : ∀ c ∈ password, c ∉ [38, 61]

/-- The body of both forms. -/
def Account.form (a : Account) : JsString :=
  js "username=" ++ a.name ++ js "&password=" ++ a.password

section Form

/-- Two parts with a separator between them. -/
theorem split_pair {a : UInt16} {sep x y : JsString} (hx : a ∉ x) (hy : a ∉ y) :
    split (a :: sep) (x ++ (a :: sep ++ y)) = [x, y] := by
  rw [split_append hx, split_of_not_mem List.mem_cons_self hy]

theorem keyValue_pair {name value : JsString} (hname : 61 ∉ name) (hvalue : 61 ∉ value) :
    keyValue (js "=") (name ++ (js "=" ++ value)) = (name, some value) := by
  have hsplit : split (js "=") (name ++ (js "=" ++ value)) = [name, value] :=
    split_pair hname hvalue
  rw [keyValue, hsplit]
  rfl

theorem Account.not_mem_name (a : Account) {c : UInt16} (hc : c ∈ [13, 10, 38, 58, 59, 61]) :
    c ∉ a.name := fun hmem => a.name_plain c hmem hc

theorem Account.not_mem_password (a : Account) {c : UInt16} (hc : c ∈ [38, 61]) :
    c ∉ a.password := fun hmem => a.password_plain c hmem hc

/-- The form reads back. -/
theorem form_account {ctx : HTTPContext} {a : Account} (hbody : ctx.body = a.form) :
    field ctx.form (js "username") = some a.name ∧
      field ctx.form (js "password") = some a.password := by
  have hfields : split (js "&") ctx.body =
      [js "username" ++ (js "=" ++ a.name), js "password" ++ (js "=" ++ a.password)] := by
    have hcut : ctx.body = (js "username" ++ (js "=" ++ a.name)) ++
        (js "&" ++ (js "password" ++ (js "=" ++ a.password))) := by
      rw [hbody, Account.form]
      simp only [List.append_assoc]
      rfl
    have hfixed : (38 : UInt16) ∉ js "username" ∧ (38 : UInt16) ∉ js "=" ∧
        (38 : UInt16) ∉ js "password" := by decide
    rw [hcut]
    apply split_pair
    · simp only [List.mem_append, not_or]
      exact ⟨hfixed.1, hfixed.2.1, a.not_mem_name (by decide)⟩
    · simp only [List.mem_append, not_or]
      exact ⟨hfixed.2.2, hfixed.2.1, a.not_mem_password (by decide)⟩
  have hform : ctx.form = assignField (assignField Dict.empty (js "username") (some a.name))
      (js "password") (some a.password) := by
    rw [HTTPContext.form, hfields, List.foldl_cons, List.foldl_cons, List.foldl_nil, addField,
      addField, keyValue_pair (by decide) (a.not_mem_name (by decide)),
      keyValue_pair (by decide) (a.not_mem_password (by decide))]
  rw [hform, assignField, if_neg (by decide), assignField, if_neg (by decide)]
  constructor
  · rw [field, Dict.get?_set_ne _ _ (by decide), Dict.get?_set_self]
    rfl
  · rw [field, Dict.get?_set_self]
    rfl

end Form

/-! ## Requests with a body -/

namespace Site

variable {p : Platform} (site : Site p)

theorem post_token : IsToken (js "POST") := isToken_of_all (by decide) (by decide)

/-- A `POST` request for a page. -/
def postRequest {path : JsString} (hpath : path ∈ sessionPaths) (jar : CookieJar)
    (body : JsString) : TextRequest :=
  { site.textRequest hpath jar with
    method := js "POST"
    method_token := post_token
    body := body }

/-- `parse` reads it. -/
theorem post_reads {path : JsString} (hpath : path ∈ sessionPaths) (jar : CookieJar)
    (body : JsString) : ∃ ctx, parse p (site.postRequest hpath jar body).text = some ctx ∧
      ctx.method = js "POST" ∧ ctx.path.pathname = path ∧
      ctx.headers.get? (js "cookie") = jar.received ∧ ctx.body = body := by
  have hsame : (site.postRequest hpath jar body).fields = site.fields jar := rfl
  have hhost : requestHost p (site.postRequest hpath jar body).text = site.host := by
    obtain ⟨rest, hfields⟩ := site.exists_fields jar
    rw [requestHost, TextRequest.headerEntries_text, hsame, hfields]
    simp [key_hostField, received_hostField, site.host_ne]
  have hparseable : Parseable p (site.postRequest hpath jar body).text := by
    apply (TextRequest.parseable_text_iff _).mpr
    refine ⟨site.fields_names jar, ?_⟩
    rw [hhost]
    exact Option.isSome_iff_exists.mpr ⟨_, site.urls path hpath⟩
  obtain ⟨ctx, hparse⟩ := Option.isSome_iff_exists.mp ((parse_isSome_iff p _).mpr hparseable)
  obtain ⟨hmethod, hbody, hurl, hget⟩ := TextRequest.parse_text _ hparse
  rw [hhost] at hurl
  refine ⟨ctx, hparse, hmethod, ?_, ?_, hbody⟩
  · rw [← Option.some.inj ((site.urls path hpath).symm.trans hurl)]
  · -- the cookies are read as in a request without a body
    obtain ⟨ctx', hparse', -, -, hcookie⟩ := site.reads hpath jar
    rw [← site.text_textRequest hpath jar] at hparse'
    rw [hget, ← hcookie, (TextRequest.parse_text _ hparse').2.2.2]
    rfl

end Site

/-! ## What the pages do -/

section Pages

variable {p : Platform} {router : Router} {ctx : HTTPContext} {a : Account} {s : Store} {env : Env}

/-- The handler of a route runs for its request. -/
theorem handle_run_route (route : Route) {text : JsString} (hrouter : makeRouter p = some router)
    (hparse : parse p text = some ctx) (hpath : ctx.path.pathname = route.path) (env : Env)
    (s : Store) : (handle p text).run env s = (route.handler p router ctx).run env s := by
  have hroute := (overrides_eq_some_iff hrouter _ route).mpr hpath
  simp only [handle, hparse, hrouter, Prog.run_bind, run_require_some, Outcome.after_nil,
    Router.handle, hroute]

/-- The form of an account whose name is free gets to the digest. -/
theorem register_form (hunknown : getUser s.users ctx.userCookie = none)
    (hpost : ctx.method = js "POST") (hbody : ctx.body = a.form)
    (hfree : s.users.get? a.name = none) : (register p router ctx).run env s =
      { store := s, effects := [], result := some (.await (.register a.name a.password)) } := by
  have hget : ¬js "POST" = js "GET" := by decide
  obtain ⟨husername, hpassword⟩ := form_account hbody
  have hname : ¬(a.name.length < 3 ∨ a.name.length > 32) := by
    have := a.name_length
    omega
  have hlength : ¬(a.password.length < 8 ∨ a.password.length > 64) := by
    have := a.password_length
    omega
  have hmissing : getUser s.users (some a.name) = none := by
    have hproperty : property s.users (propertyKey (some a.name)) = .missing :=
      property_missing hfree a.name_own
    rw [getUser, hproperty]
  simp only [register, Prog.run_bind, run_userGet, Outcome.after_nil, hunknown, Option.isSome_none,
    Bool.false_eq_true, if_false, hpost, if_neg hget, if_true, husername, run_require_some,
    if_neg hname, hpassword, if_neg hlength, if_neg a.name_notGpt, hmissing, run_pure]

/-- The record of an account. -/
structure Account.Stored (a : Account) (p : Platform) (users : UserTable) (u : UserData) :
    Prop where
  get : users.get? a.name = some u
  id : u.id = some a.name
  password : u.password = some (passwordHash p a.password)

/-- The digest of the form stores the record. -/
theorem registerDigest_stores (hfree : s.users.get? a.name = none) :
    ∃ u, a.Stored p ((registerDigest p a.name a.password).run env s).store.users u := by
  refine ⟨{ id := some a.name, password := some (passwordHash p a.password) }, ?_, rfl, rfl⟩
  simp only [registerDigest, Prog.run_bind, run_userSet, run_redirect, Outcome.after]
  exact get?_setUser_missing hfree a.name_own

/-- The form of a stored account gets to the digest of `login`. -/
theorem login_form {u : UserData} (hunknown : getUser s.users ctx.userCookie = none)
    (hpost : ctx.method = js "POST") (hbody : ctx.body = a.form) (hu : a.Stored p s.users u) :
    (login p router ctx).run env s =
      { store := s, effects := [], result := some (.await (.login (some a.name) a.password u)) } := by
  have hget : ¬js "POST" = js "GET" := by decide
  obtain ⟨husername, hpassword⟩ := form_account hbody
  have hfound : getUser s.users (some a.name) = some u := getUser_own hu.get
  simp only [login, Prog.run_bind, run_userGet, Outcome.after_nil, hunknown, Option.isSome_none,
    Bool.false_eq_true, if_false, hpost, if_neg hget, if_true, husername, hfound, hpassword,
    run_require_some, run_pure]

/-- The digest of the form makes a token, and sends it with the name. -/
theorem loginDigest_run {u : UserData} (hpassword : u.password = some (passwordHash p a.password)) :
    (loginDigest p (some a.name) a.password u).run env s =
      { store := { s with users := setUser s.users (some a.name)
                            { u.spread with token := some (some (tokenOf env.uuid)) } }
        effects := .randomUUID env.uuid ::
          .setUser (some a.name) { u.spread with token := some (some (tokenOf env.uuid)) } ::
            redirectCalls (js "/chat") (sessionCookies (some a.name) (tokenOf env.uuid))
        result := some .done } := by
  simp only [loginDigest, if_neg (not_not.mpr hpassword), Prog.run_bind, run_randomUUID,
    run_userSet, run_redirect, Outcome.after]
  rfl

theorem loginDigest_stores {u u' : UserData} (hu : a.Stored p s.users u')
    (hid : u.id = some a.name) (hpassword : u.password = some (passwordHash p a.password)) :
    ∃ v, a.Stored p ((loginDigest p (some a.name) a.password u).run env s).store.users v ∧
      v.token = some (tokenOf env.uuid) := by
  refine ⟨u'.assign { u.spread with token := some (some (tokenOf env.uuid)) }, ⟨?_, ?_, ?_⟩, rfl⟩
  · rw [loginDigest_run hpassword]
    exact get?_setUser_own hu.get
  · simp [UserData.assign, UserData.spread, hid]
  · simp [UserData.assign, UserData.spread, hpassword]

end Pages

/-! ## The cookies of a session -/

/-- The characters that a cookie cannot carry here. -/
theorem not_mem_tokenOf {c : UInt16} (hc : c ∈ [13, 10, 38, 58, 59, 61]) (uuid : Uuid) :
    c ∉ tokenOf uuid := by
  intro hmem
  obtain ⟨n, hn, rfl⟩ := exists_hexDigit hmem
  have hdigits : ∀ n < 16, hexDigit n ∉ [13, 10, 38, 58, 59, 61] := by decide
  exact hdigits n hn hc

/-- The value of a cookie that is sent to the visitor. -/
def Account.nameCookie (a : Account) : CookieValue where
  text := a.name
  oneLine := ⟨a.not_mem_name (by decide), a.not_mem_name (by decide)⟩

def tokenCookie (uuid : Uuid) : CookieValue where
  text := tokenOf uuid
  oneLine := ⟨not_mem_tokenOf (by decide) uuid, not_mem_tokenOf (by decide) uuid⟩

/-- The cookies after a login. -/
def Account.jar (a : Account) (uuid : Uuid) : CookieJar where
  user := some a.nameCookie
  token := some (tokenCookie uuid)

section Cookies

variable {a : Account} {uuid : Uuid}

/-- What a `Set-Cookie` header of a session does to the cookies. -/
theorem set_cookie (name : JsString) (value : CookieValue) (jar : CookieJar) (hname : 61 ∉ name)
    (hpair : 59 ∉ name ++ js "=" ++ value.text) :
    jar.set (name ++ js "=" ++ value.text ++ js "; Path=/; HttpOnly") =
      if name = js "user" then { jar with user := some value }
      else if name = js "token" then { jar with token := some value }
      else jar := by
  have hsplit : (split (js ";") (name ++ js "=" ++ value.text ++ js "; Path=/; HttpOnly")).headD [] =
      name ++ js "=" ++ value.text := by
    have hhead : split (js ";") (name ++ js "=" ++ value.text ++ (js ";" ++ js " Path=/; HttpOnly")) =
        (name ++ js "=" ++ value.text) :: split (js ";") (js " Path=/; HttpOnly") :=
      split_append hpair _
    exact congrArg (fun parts => parts.headD []) hhead
  have hall : ∀ c ∈ name, decide (c ≠ 61) = true := fun c hc =>
    decide_eq_true (ne_of_mem_of_not_mem hc hname)
  have htake : (name ++ js "=" ++ value.text).takeWhile (· ≠ 61) = name := by
    rw [List.append_assoc, List.takeWhile_append_of_pos hall]
    exact List.append_nil name
  have hdrop : ((name ++ js "=" ++ value.text).dropWhile (· ≠ 61)).drop 1 = value.text := by
    rw [List.append_assoc, List.dropWhile_append_of_pos hall]
    rfl
  unfold CookieJar.set
  simp only [hsplit, htake, hdrop]
  rw [dif_pos value.oneLine]

theorem pair_plain (value : CookieValue) (hvalue : 59 ∉ value.text) (name : JsString)
    (hname : 59 ∉ name) : 59 ∉ name ++ js "=" ++ value.text := by
  have hequals : (59 : UInt16) ∉ js "=" := by decide
  simp only [List.mem_append, not_or]
  exact ⟨⟨hname, hequals⟩, hvalue⟩

/-- The cookies that a login sets. -/
theorem login_cookies (jar : CookieJar) :
    (headerValues (js "set-cookie") ((js "Location", js "/chat") ::
      sessionCookies (some a.name) (tokenOf uuid))).foldl CookieJar.set jar = a.jar uuid := by
  have huser := set_cookie (js "user") a.nameCookie jar (by decide)
    (pair_plain _ (a.not_mem_name (by decide)) _ (by decide))
  have htoken := set_cookie (js "token") (tokenCookie uuid)
    { jar with user := some a.nameCookie } (by decide)
    (pair_plain _ (not_mem_tokenOf (by decide) uuid) _ (by decide))
  rw [if_pos rfl] at huser
  rw [if_neg (by decide), if_pos rfl] at htoken
  have hvalues : headerValues (js "set-cookie") ((js "Location", js "/chat") ::
      sessionCookies (some a.name) (tokenOf uuid)) =
      [js "user" ++ js "=" ++ a.nameCookie.text ++ js "; Path=/; HttpOnly",
        js "token" ++ js "=" ++ (tokenCookie uuid).text ++ js "; Path=/; HttpOnly"] := by
    have hlocation : (js "Location").map asciiLower ≠ js "set-cookie" := by decide
    have hset : (js "Set-Cookie").map asciiLower = js "set-cookie" := by decide
    simp only [headerValues, sessionCookies, List.filter_cons, hlocation, hset, decide_true,
      decide_false, if_true, List.filter_nil]
    rfl
  rw [hvalues, List.foldl_cons, List.foldl_cons, List.foldl_nil, huser, htoken]
  rfl

/-- The `Cookie` header of a session is read as it is. -/
theorem received_jar : (a.jar uuid).received =
    some [some (js "user" ++ (js "=" ++ a.name) ++
      (js "; " ++ (js "token" ++ (js "=" ++ tokenOf uuid))))] := by
  have hheader : (a.jar uuid).cookieHeader = some (js "user" ++ (js "=" ++ a.name) ++
      (js "; " ++ (js "token" ++ (js "=" ++ tokenOf uuid)))) := by
    have hpairs : (a.jar uuid).pairs =
        [js "user=" ++ a.name, js "token=" ++ tokenOf uuid] := rfl
    rw [CookieJar.cookieHeader, hpairs, if_neg (List.cons_ne_nil _ _),
      List.intercalate_cons_cons, List.intercalate_singleton, List.append_assoc]
    rfl
  have hplain : 58 ∉ js "user" ++ (js "=" ++ a.name) ++
      (js "; " ++ (js "token" ++ (js "=" ++ tokenOf uuid))) := by
    have hfixed : (58 : UInt16) ∉ js "user" ∧ (58 : UInt16) ∉ js "=" ∧ (58 : UInt16) ∉ js "; " ∧
        (58 : UInt16) ∉ js "token" := by decide
    simp only [List.mem_append, not_or]
    exact ⟨⟨hfixed.1, hfixed.2.1, a.not_mem_name (by decide)⟩, hfixed.2.2.1, hfixed.2.2.2,
      hfixed.2.1, not_mem_tokenOf (by decide) uuid⟩
  have hwhole : split (js ": ") (js "user" ++ (js "=" ++ a.name) ++
      (js "; " ++ (js "token" ++ (js "=" ++ tokenOf uuid)))) = [_] :=
    split_of_not_mem List.mem_cons_self hplain
  rw [CookieJar.received, hheader, Option.map_some, hwhole]
  rfl

/-- The server finds the name and the token in it. -/
theorem cookies_jar {ctx : HTTPContext}
    (hcookie : ctx.headers.get? (js "cookie") = (a.jar uuid).received) :
    ctx.userCookie = some a.name ∧ ctx.tokenCookie = some (tokenOf uuid) := by
  have hsplit : split (js "; ") (js "user" ++ (js "=" ++ a.name) ++
      (js "; " ++ (js "token" ++ (js "=" ++ tokenOf uuid)))) =
      [js "user" ++ (js "=" ++ a.name), js "token" ++ (js "=" ++ tokenOf uuid)] := by
    have hfixed : (59 : UInt16) ∉ js "user" ∧ (59 : UInt16) ∉ js "=" ∧
        (59 : UInt16) ∉ js "token" := by decide
    apply split_pair
    · simp only [List.mem_append, not_or]
      exact ⟨hfixed.1, hfixed.2.1, a.not_mem_name (by decide)⟩
    · simp only [List.mem_append, not_or]
      exact ⟨hfixed.2.2, hfixed.2.1, not_mem_tokenOf (by decide) uuid⟩
  have hcookies : ctx.cookies = assignField (assignField Dict.empty (js "user") (some a.name))
      (js "token") (some (tokenOf uuid)) := by
    rw [HTTPContext.cookies, hcookie, received_jar]
    show List.foldl addField Dict.empty (split (js "; ") _) = _
    rw [hsplit, List.foldl_cons, List.foldl_cons, List.foldl_nil, addField, addField,
      keyValue_pair (by decide) (a.not_mem_name (by decide)),
      keyValue_pair (by decide) (not_mem_tokenOf (by decide) uuid)]
  rw [HTTPContext.userCookie, HTTPContext.tokenCookie, hcookies, assignField, if_neg (by decide),
    assignField, if_neg (by decide)]
  constructor
  · rw [field, Dict.get?_set_ne _ _ (by decide), Dict.get?_set_self]
    rfl
  · rw [field, Dict.get?_set_self]
    rfl

end Cookies

end NetworkServers.Phase2
