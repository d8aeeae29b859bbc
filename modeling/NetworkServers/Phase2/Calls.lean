import NetworkServers.Phase2.Responses
import NetworkServers.Phase2.Sessions
import NetworkServers.Phase2.Wire

/-!
# What a Stretch Calls

A stretch of a handler writes a complete response, or the beginning of one that it goes
on with, or nothing. `StartCalls` tells the stretches that start a request apart, and
says of every header and chunk they write what a client needs to read it.
-/

namespace NetworkServers.Phase2

open NetworkServers.Js NetworkServers.HttpMessage
open Prog (require)

/-! ## Stretches that come to an end -/

/-- On a store and behind the calls that have been made, `Q` holds of the store, all calls
and the value that a stretch ends with, if it does not throw. -/
def Prog.Yields {α : Type} (env : Env) (Q : Store → List Call → α → Prop) (prog : Prog α)
    (s : Store) (calls : List Call) : Prop :=
  ∀ a, (prog.run env s).result = some a →
    Q (prog.run env s).store (calls ++ callsOf (prog.run env s).effects) a

section Yields

variable {α β : Type} {env : Env} {s : Store} {calls : List Call}
  {Q : Store → List Call → α → Prop}

@[simp] theorem yields_bind {prog : Prog β} {f : β → Prog α} :
    (prog >>= f).Yields env Q s calls ↔
      prog.Yields env (fun s calls b => (f b).Yields env Q s calls) s calls := by
  unfold Prog.Yields
  rw [Prog.run_bind]
  cases (prog.run env s).result with
  | none => exact iff_of_true (fun a h => nomatch h) fun b h => nomatch h
  | some b =>
    simp only [Option.some.injEq, forall_eq', Outcome.after, callsOf, List.filterMap_append,
      List.append_assoc]

/-- A stretch whose run is known. -/
theorem yields_of_run {prog : Prog α} {s' : Store} {effects : List Effect} {a : α}
    (h : prog.run env s = { store := s', effects := effects, result := some a }) :
    prog.Yields env Q s calls ↔ Q s' (calls ++ callsOf effects) a := by
  simp only [Prog.Yields, h, Option.some.injEq, forall_eq']

@[simp] theorem yields_pure {a : α} : (pure a : Prog α).Yields env Q s calls ↔ Q s calls a := by
  rw [yields_of_run (run_pure env s a), callsOf, List.filterMap_nil, List.append_nil]

@[simp] theorem yields_require {o : Option α} :
    (require o).Yields env Q s calls ↔ ∀ a, o = some a → Q s calls a := by
  cases o with
  | none => exact iff_of_true (fun a h => nomatch h) fun a h => nomatch h
  | some a =>
    rw [yields_of_run (run_require_some env s a), callsOf, List.filterMap_nil, List.append_nil]
    exact ⟨fun h b hb => Option.some.inj hb ▸ h, fun h => h a rfl⟩

@[simp] theorem yields_userGet {id : Option JsString}
    {Q : Store → List Call → Option UserData → Prop} :
    (userGet id).Yields env Q s calls ↔ Q s calls (getUser s.users id) := by
  rw [yields_of_run (run_userGet env s id), callsOf, List.filterMap_nil, List.append_nil]

@[simp] theorem yields_userSet {id : Option JsString} {user : UserPatch}
    {Q : Store → List Call → Unit → Prop} : (userSet id user).Yields env Q s calls ↔
      Q { s with users := setUser s.users id user } calls () := by
  rw [yields_of_run (run_userSet env s id user)]
  simp [callsOf]

@[simp] theorem yields_chatGet {Q : Store → List Call → List ChatData → Prop} :
    chatGet.Yields env Q s calls ↔ Q s calls s.chats := by
  rw [yields_of_run (run_chatGet env s), callsOf, List.filterMap_nil, List.append_nil]

@[simp] theorem yields_chatAdd {chat : ChatData} {Q : Store → List Call → Unit → Prop} :
    (chatAdd chat).Yields env Q s calls ↔
      Q { s with chats := addChat s.chats chat } calls () := by
  rw [yields_of_run (run_chatAdd env s chat)]
  simp [callsOf]

@[simp] theorem yields_dateNow {Q : Store → List Call → ℕ → Prop} :
    dateNow.Yields env Q s calls ↔ Q s calls env.now := by
  rw [yields_of_run (run_dateNow env s), callsOf, List.filterMap_nil, List.append_nil]

@[simp] theorem yields_randomUUID {Q : Store → List Call → Uuid → Prop} :
    randomUUID.Yields env Q s calls ↔ Q s calls env.uuid := by
  rw [yields_of_run (run_randomUUID env s)]
  simp [callsOf]

@[simp] theorem yields_startGpt {Q : Store → List Call → Unit → Prop} :
    startGpt.Yields env Q s calls ↔ Q s calls () := by
  rw [yields_of_run (run_startGpt env s)]
  simp [callsOf]

@[simp] theorem yields_writeHeaders {status : ℕ} {headers : List (JsString × JsString)}
    {Q : Store → List Call → Unit → Prop} : (writeHeaders status headers).Yields env Q s calls ↔
      Q s (calls ++ [.writeHeaders status headers]) () :=
  yields_of_run (run_writeHeaders env s status headers)

@[simp] theorem yields_writeBody {data : List UInt8} {Q : Store → List Call → Unit → Prop} :
    (writeBody data).Yields env Q s calls ↔ Q s (calls ++ [.writeBody data]) () :=
  yields_of_run (run_writeBody env s data)

@[simp] theorem yields_writeText {text : JsString} {Q : Store → List Call → Unit → Prop} :
    (writeText text).Yields env Q s calls ↔ Q s (calls ++ [.writeBody (utf8Encode text)]) () :=
  yields_writeBody

@[simp] theorem yields_endBody {Q : Store → List Call → Unit → Prop} :
    endBody.Yields env Q s calls ↔ Q s (calls ++ [.endBody]) () :=
  yields_of_run (run_endBody env s)

end Yields

/-! ## Headers -/

/-- A header that a client reads as field lines. -/
def PlainHeader (header : JsString × JsString) : Prop :=
  FieldLines (utf8Encode (headerLine header))

/-- Whether text is ASCII without a carriage return. -/
def isLineText (text : JsString) : Bool := text.all fun c => c < 128 && c ≠ 13

theorem toUInt16_byte {c : UInt16} (hc : c < 128) : c.toNat.toUInt8.toUInt16 = c := by
  have hlt : c.toNat < 128 := hc
  rw [← UInt16.toNat_inj]
  simp only [UInt8.toNat_toUInt16, Nat.toUInt8, UInt8.toNat_ofNat']
  omega

/-- The bytes of such text are its characters, with no carriage return among them. -/
theorem not_mem_utf8Encode {text : JsString} (htext : isLineText text) : 13 ∉ utf8Encode text := by
  have hascii : ∀ c ∈ text, c < 128 ∧ c ≠ 13 := by simpa [isLineText] using htext
  rw [utf8Encode_ascii fun c hc => (hascii c hc).1]
  intro hmem
  obtain ⟨c, hc, h13⟩ := List.mem_map.mp hmem
  obtain ⟨hlt, hne⟩ := hascii c hc
  exact hne ((toUInt16_byte hlt).symm.trans (congrArg UInt8.toUInt16 h13))

/-- Such text is a field line, if it does not begin with a line feed. -/
theorem fieldLines_lineText {text : JsString} (htext : isLineText text)
    (hfirst : ∃ c, text.head? = some c ∧ c ≠ 10) : FieldLines (utf8Encode text) := by
  have hnone := not_mem_utf8Encode htext
  have hascii : ∀ c ∈ text, c < 128 ∧ c ≠ 13 := by simpa [isLineText] using htext
  cases text with
  | nil => exact absurd hfirst (by simp)
  | cons c text =>
    obtain ⟨c', hc', h10⟩ := hfirst
    obtain rfl := Option.some.inj hc'
    have hbyte := toUInt16_byte (hascii c List.mem_cons_self).1
    rw [utf8Encode_ascii fun d hd => (hascii d hd).1, List.map_cons] at hnone ⊢
    rw [List.mem_cons, not_or] at hnone
    refine FieldLines.of_line ?_ hnone.2
    simp only [crlf, List.mem_cons, List.not_mem_nil, or_false, not_or]
    exact ⟨fun h => hnone.1 h.symm, fun h => h10 (hbyte.symm.trans (congrArg UInt8.toUInt16 h))⟩

theorem isLineText_append (a b : JsString) :
    isLineText (a ++ b) = (isLineText a && isLineText b) := List.all_append

/-- A header of such text. -/
theorem plainHeader_lineText {key value : JsString} (hkey : isLineText key)
    (hfirst : ∃ c, key.head? = some c ∧ c ≠ 10) (hvalue : isLineText value) :
    PlainHeader (key, value) := by
  obtain ⟨c, hc, hne⟩ := hfirst
  apply fieldLines_lineText
  · have hsep : isLineText (js ": ") := by decide
    simp only [headerLine, isLineText_append, hkey, hvalue, hsep, Bool.and_self]
  · refine ⟨c, ?_, hne⟩
    rw [headerLine, List.append_assoc, List.head?_append, hc]
    rfl

theorem plainHeader_location {url : JsString} (hurl : isLineText url) :
    PlainHeader (js "Location", url) :=
  plainHeader_lineText (by decide) ⟨_, rfl, by decide⟩ hurl

theorem plainHeader_contentType {value : JsString} (hvalue : isLineText value) :
    PlainHeader (js "Content-Type", value) :=
  plainHeader_lineText (by decide) ⟨_, rfl, by decide⟩ hvalue

theorem plainHeader_setCookie {value : JsString} (hvalue : isLineText value) :
    PlainHeader (js "Set-Cookie", value) :=
  plainHeader_lineText (by decide) ⟨_, rfl, by decide⟩ hvalue

theorem isLineText_ite {c : Prop} [Decidable c] {a b : JsString} (ha : isLineText a)
    (hb : isLineText b) : isLineText (if c then a else b) := by
  split
  · exact ha
  · exact hb

theorem isLineText_contentType (extension : JsString) : isLineText (contentType extension) := by
  unfold contentType
  -- the type for each extension, and the empty one for all others
  repeat' apply isLineText_ite
  all_goals decide

theorem plainHeaders_clearCookies : ∀ header ∈ clearCookies, PlainHeader header := by
  simp only [clearCookies, List.forall_mem_cons]
  exact ⟨plainHeader_setCookie (by decide), plainHeader_setCookie (by decide),
    fun _ h => absurd h List.not_mem_nil⟩

/-- A token is made of hexadecimal digits. -/
theorem isLineText_token (uuid : Uuid) : isLineText (tokenOf uuid) := by
  simp only [isLineText, List.all_eq_true]
  intro c hc
  obtain ⟨hlow, hhigh⟩ := mem_hexEncode hc
  have hne : c ≠ 13 := by
    rintro rfl
    exact absurd hlow (by decide)
  simp [hhigh, hne]

/-- The cookie of a token is plain. -/
theorem plainHeader_token (uuid : Uuid) :
    PlainHeader (js "Set-Cookie", js "token=" ++ tokenOf uuid ++ js "; Path=/; HttpOnly") := by
  apply plainHeader_setCookie
  simp only [isLineText_append, isLineText_token, Bool.and_true]
  decide

/-! ## Responses -/

/-- The calls of a response. -/
def response (status : ℕ) (headers : List (JsString × JsString)) (bodies : List (List UInt8)) :
    List Call :=
  .writeHeaders status headers :: (bodies.map .writeBody ++ [.endBody])

/-- The calls of a response that a client can read, with a body that it expects. -/
def PlainResponse (calls : List Call) : Prop :=
  ∃ status headers bodies, calls = response status headers bodies ∧ status ≠ 304 ∧
    (∀ header ∈ headers, PlainHeader header) ∧ ∀ data ∈ bodies, data ≠ []

/-- A request that `login` goes on with after its digest. -/
structure LoginRequest (users : UserTable) (ctx : HTTPContext) (username : Option JsString)
    (password : JsString) (u : UserData) : Prop where
  path : ctx.path.pathname = js "/login"
  method : ctx.method = js "POST"
  loggedOut : getUser users ctx.userCookie = none
  usernameField : field ctx.form (js "username") = username
  found : getUser users username = some u
  passwordField : field ctx.form (js "password") = some password

/-- A request that `chat_status` waits with. -/
structure PollRequest (users : UserTable) (ctx : HTTPContext) : Prop where
  path : ctx.path.pathname = js "/chat-status"
  method : ctx.method = js "GET"
  session : PassesSession users ctx

/-- `JSON.stringify` of an object gives some text, if it does not throw. -/
def StringifiesObjects (p : Platform) : Prop :=
  ∀ ctx text, p.stringify ctx = some text → text ≠ []

/-- What the first stretch of a request has called, and how it has ended. -/
inductive StartCalls (p : Platform) (s : Store) (ctx : HTTPContext) : List Call → Next → Prop where
  | answered {calls : List Call} (h : OneResponse calls)
      (hplain : StringifiesObjects p → PlainResponse calls) : StartCalls p s ctx calls .done
  /-- The chat page has no answer to some methods. -/
  | unanswered : StartCalls p s ctx [] .done
  | register (username password : JsString) :
      StartCalls p s ctx [] (.await (.register username password))
  | login {username : Option JsString} {password : JsString} {u : UserData}
      (h : LoginRequest s.users ctx username password u) :
      StartCalls p s ctx [] (.await (.login username password u))
  | stream {header : JsString × JsString} {chunks : List (List UInt8)}
      (hheader : PlainHeader header) (hchunks : ∀ data ∈ chunks, data ≠ []) :
      StartCalls p s ctx [.writeHeaders 200 [header]] (.await (.stream chunks))
  | changed (h : PollRequest s.users ctx) :
      StartCalls p s ctx [] (.await (.changed s.chats.length))

section Responses

theorem plainResponse_redirect {url : JsString} {headers : List (JsString × JsString)}
    (hurl : isLineText url) (hheaders : ∀ header ∈ headers, PlainHeader header) :
    PlainResponse [.writeHeaders 302 ((js "Location", url) :: headers), .endBody] :=
  ⟨302, _, [], rfl, by decide, List.forall_mem_cons.mpr ⟨plainHeader_location hurl, hheaders⟩,
    fun _ h => absurd h List.not_mem_nil⟩

theorem plainResponse_body {status : ℕ} {value : JsString} {data : List UInt8}
    (hstatus : status ≠ 304) (hvalue : isLineText value) (hdata : data ≠ []) :
    PlainResponse [.writeHeaders status [(js "Content-Type", value)], .writeBody data, .endBody] := by
  refine ⟨status, _, [data], rfl, hstatus, ?_, ?_⟩
  · exact List.forall_mem_singleton.mpr (plainHeader_contentType hvalue)
  · exact List.forall_mem_singleton.mpr hdata

variable {p : Platform} {router : Router} {ctx : HTTPContext} {env : Env} {s t : Store}

theorem PlainResponse.starts {calls : List Call} (h : PlainResponse calls) :
    StartCalls p s ctx calls .done := by
  obtain ⟨status, headers, bodies, hcalls, -⟩ := id h
  exact .answered ⟨status, headers, bodies, hcalls⟩ fun _ => h

theorem redirect_calls {url : JsString} (hurl : isLineText url) :
    (redirect url).Yields env (fun _ => StartCalls p s ctx) t [] := by
  simp only [redirect, yields_bind, yields_writeHeaders, yields_endBody, yields_pure]
  exact PlainResponse.starts (plainResponse_redirect hurl fun _ h => absurd h List.not_mem_nil)

theorem redirect_clearCookies_calls {url : JsString} (hurl : isLineText url) :
    (redirect url clearCookies).Yields env (fun _ => StartCalls p s ctx) t [] := by
  simp only [redirect, yields_bind, yields_writeHeaders, yields_endBody, yields_pure]
  exact PlainResponse.starts (plainResponse_redirect hurl plainHeaders_clearCookies)

theorem notFound_calls : notFound.Yields env (fun _ => StartCalls p s ctx) t [] := by
  simp only [notFound, yields_bind, yields_writeHeaders, yields_writeText, yields_endBody,
    yields_pure]
  exact PlainResponse.starts (plainResponse_body (by decide) (by decide) (utf8Encode_ne_nil (by decide)))

theorem serveStatic_calls (path : JsString) :
    (router.serveStatic p path).Yields env (fun _ => StartCalls p s ctx) t [] := by
  unfold Router.serveStatic
  dsimp only
  split
  · simp only [yields_bind, yields_writeHeaders, yields_writeText, yields_endBody, yields_pure]
    exact PlainResponse.starts (plainResponse_body (by decide) (by decide) (utf8Encode_ne_nil (by decide)))
  split
  · rename_i fp content _
    split
    · simp only [yields_bind, yields_writeHeaders, yields_writeText, yields_endBody, yields_pure]
      exact PlainResponse.starts (plainResponse_body (by decide) (by decide) (utf8Encode_ne_nil (by decide)))
    · simp only [yields_bind, yields_writeHeaders, yields_pure]
      exact .stream (plainHeader_contentType (isLineText_contentType _)) content.chunks_ne
  · exact notFound_calls

theorem register_calls :
    (register p router ctx).Yields env (fun _ => StartCalls p s ctx) t [] := by
  simp only [register, yields_bind, yields_userGet]
  split
  · exact redirect_calls (by decide)
  split
  · exact serveStatic_calls _
  split
  · simp only [yields_bind, yields_require]
    intro username _
    split
    · exact redirect_calls (by decide)
    simp only [yields_bind, yields_require]
    intro password _
    split
    · exact redirect_calls (by decide)
    split
    · exact redirect_calls (by decide)
    simp only [yields_bind, yields_userGet]
    split
    · exact redirect_calls (by decide)
    · rw [yields_pure]
      exact .register username password
  · exact notFound_calls

theorem login_calls (hpath : ctx.path.pathname = js "/login") :
    (login p router ctx).Yields env (fun _ => StartCalls p s ctx) s [] := by
  simp only [login, yields_bind, yields_userGet]
  split
  · exact redirect_calls (by decide)
  rename_i hloggedOut
  split
  · exact serveStatic_calls _
  split
  · rename_i hpost
    simp only [yields_bind, yields_userGet]
    split
    · exact redirect_calls (by decide)
    · rename_i u hfound
      simp only [yields_bind, yields_require, yields_pure]
      exact fun password hpassword => .login
        { path := hpath, method := hpost, loggedOut := by simpa using hloggedOut
          usernameField := rfl, found := hfound, passwordField := hpassword }
  · exact notFound_calls

theorem logout_calls : (logout ctx).Yields env (fun _ => StartCalls p s ctx) t [] := by
  simp only [logout, yields_bind, yields_userGet]
  split
  · split
    · simp only [yields_bind, yields_userSet]
      exact redirect_clearCookies_calls (by decide)
    · exact redirect_clearCookies_calls (by decide)
  · exact redirect_clearCookies_calls (by decide)

/-- The session check redirects, or hands over to what is behind it. -/
theorem withSession_calls {serve : UserData → Prog Next}
    (hserve : PassesSession s.users ctx →
      ∀ u, (serve u).Yields env (fun _ => StartCalls p s ctx) s []) :
    (withSession ctx serve).Yields env (fun _ => StartCalls p s ctx) s [] := by
  simp only [withSession, yields_bind, yields_userGet]
  split
  · exact redirect_calls (by decide)
  · rename_i u hu
    split
    · exact redirect_clearCookies_calls (by decide)
    · rename_i htoken
      exact hserve ⟨u, hu, of_not_not htoken⟩ u

theorem serveChat_calls (u : UserData) :
    (serveChat p router ctx u).Yields env (fun _ => StartCalls p s ctx) t [] := by
  unfold serveChat
  split
  · simp only [yields_bind, yields_chatGet]
    split
    · rename_i html _
      split
      · exact notFound_calls
      · rename_i hhtml
        simp only [yields_bind, yields_writeHeaders, yields_writeText, yields_endBody, yields_pure]
        exact PlainResponse.starts (plainResponse_body (by decide) (by decide) (utf8Encode_ne_nil hhtml))
    · exact notFound_calls
  split
  · simp only [yields_bind, yields_require, yields_dateNow, yields_chatAdd]
    intro message _
    split
    · simp only [yields_bind, yields_startGpt]
      exact redirect_calls (by decide)
    · exact redirect_calls (by decide)
  · rw [yields_pure]
    exact .unanswered

theorem serveChatStatus_calls (hpath : ctx.path.pathname = js "/chat-status")
    (hsession : PassesSession s.users ctx) (u : UserData) :
    (serveChatStatus ctx u).Yields env (fun _ => StartCalls p s ctx) s [] := by
  unfold serveChatStatus
  split
  · rename_i hget
    simp only [yields_bind, yields_chatGet, yields_pure]
    exact .changed { path := hpath, method := hget, session := hsession }
  · exact notFound_calls

theorem reflect_calls : (reflect p ctx).Yields env (fun _ => StartCalls p s ctx) t [] := by
  simp only [reflect, yields_bind, yields_writeHeaders, yields_require, yields_writeText,
    yields_endBody, yields_pure]
  exact fun text htext => .answered (oneResponse_body ..) fun hjson =>
    plainResponse_body (by decide) (by decide) (utf8Encode_ne_nil (hjson ctx text htext))

theorem computeSqrt_calls :
    (computeSqrt p).Yields env (fun _ => StartCalls p s ctx) t [] := by
  simp only [computeSqrt, yields_bind, yields_writeHeaders, yields_writeText, yields_endBody,
    yields_pure]
  exact PlainResponse.starts (plainResponse_body (by decide) (by decide) (utf8Encode_ne_nil (by simp [js])))

/-- **What the start of a request calls.** -/
theorem handle_calls (text : JsString) :
    (handle p text).Yields env
      (fun _ calls next => ∃ ctx, parse p text = some ctx ∧ StartCalls p s ctx calls next) s [] := by
  simp only [handle, yields_bind, yields_require]
  intro ctx hparse router hrouter
  have hroute : (router.handle p ctx).Yields env (fun _ => StartCalls p s ctx) s [] := by
    unfold Router.handle
    split
    · rename_i route hroute
      obtain hpath := (overrides_eq_some_iff hrouter _ _).mp hroute
      cases route with
      | reflect => exact reflect_calls
      | computeSqrt => exact computeSqrt_calls
      | register => exact register_calls
      | login => exact login_calls hpath
      | logout => exact logout_calls
      | chatroom => exact withSession_calls fun _ u => serveChat_calls u
      | chatStatus => exact withSession_calls (serveChatStatus_calls hpath)
    · exact serveStatic_calls _
  exact fun next hnext => ⟨ctx, hparse, hroute next hnext⟩

end Responses

/-! ## Requests that wait before they write -/

section Waiting

variable {p : Platform} {router : Router} {text : JsString} {ctx : HTTPContext} {env : Env}
  {s : Store}

/-- Without the static files nothing runs. -/
theorem handle_run_noRouter (hrouter : makeRouter p = none) :
    (handle p text).run env s = { store := s, effects := [], result := none } := by
  unfold handle
  rw [hrouter]
  cases parse p text <;> rfl

theorem makeRouter_of_result {next : Next}
    (hresult : ((handle p text).run env s).result = some next) :
    ∃ router, makeRouter p = some router := by
  cases hrouter : makeRouter p with
  | none =>
    rw [handle_run_noRouter hrouter] at hresult
    cases hresult
  | some router => exact ⟨router, rfl⟩

/-- The start of a poll waits for `changed()`. -/
theorem handle_run_poll (hrouter : makeRouter p = some router) (hparse : parse p text = some ctx)
    (h : PollRequest s.users ctx) : (handle p text).run env s =
      { store := s, effects := [], result := some (.await (.changed s.chats.length)) } := by
  obtain ⟨hpath, hget, u, hu, htoken⟩ := h
  have hroute := (overrides_eq_some_iff hrouter _ .chatStatus).mpr hpath
  simp only [handle, hparse, hrouter, Prog.run_bind, run_require_some, Outcome.after_nil,
    Router.handle, hroute, Route.handler, chatStatus, withSession, run_userGet, hu, htoken,
    ne_eq, not_true_eq_false, if_false, serveChatStatus, if_pos hget, run_chatGet, run_pure]

/-- The start of a login waits for the digest. -/
theorem handle_run_login {username : Option JsString} {password : JsString} {u : UserData}
    (hrouter : makeRouter p = some router) (hparse : parse p text = some ctx)
    (h : LoginRequest s.users ctx username password u) : (handle p text).run env s =
      { store := s, effects := [], result := some (.await (.login username password u)) } := by
  obtain ⟨hpath, hpost, hloggedOut, rfl, hfound, hpassword⟩ := h
  have hroute := (overrides_eq_some_iff hrouter _ .login).mpr hpath
  have hget : js "POST" ≠ js "GET" := by decide
  simp only [handle, hparse, hrouter, Prog.run_bind, run_require_some, Outcome.after_nil,
    Router.handle, hroute, Route.handler, login, run_userGet, hloggedOut, hpost, if_neg hget,
    Option.isSome_none, Bool.false_eq_true, if_false, if_true, hfound, hpassword, run_pure]

/-- The start of a registration waits for the digest. -/
theorem handle_run_registration {username password : JsString}
    (hrouter : makeRouter p = some router) (hparse : parse p text = some ctx)
    (h : StartsRegistration s.users ctx username password) : (handle p text).run env s =
      { store := s, effects := [], result := some (.await (.register username password)) } := by
  have hroute := (overrides_eq_some_iff hrouter _ .register).mpr h.path
  have hget : js "POST" ≠ js "GET" := by decide
  have hname : ¬(username.length < 3 ∨ username.length > 32) := by
    have := h.usernameLength
    omega
  have hlength : ¬(password.length < 8 ∨ password.length > 64) := by
    have := h.passwordLength
    omega
  simp only [handle, hparse, hrouter, Prog.run_bind, run_require_some, Outcome.after_nil,
    Router.handle, hroute, Route.handler, register, run_userGet, h.loggedOut, h.method,
    if_neg hget, Option.isSome_none, Bool.false_eq_true, if_false, if_true, h.usernameField,
    if_neg hname, h.passwordField, if_neg hlength, if_neg h.notGpt, h.free, run_pure]

end Waiting

end NetworkServers.Phase2
