import NetworkServers.Phase2.Stretches

/-!
# Responses

A request is answered by one response, however its handler is resumed, if and only if
nothing in it makes `parse` or a handler throw, and it is not a request for the chat page
with a method that `chatroom` has no answer to. `Prog.Ends` says what a stretch ends with
as a weakest precondition, and every handler gets one equivalence.
-/

namespace NetworkServers.Phase2

open NetworkServers.Js
open Prog (require)

/-! ## How stretches end -/

/-- On a store and behind the calls that have been made, a stretch does not throw, and
`Q` holds of the store, all calls and what it ends with. -/
def Prog.Ends {α : Type} (env : Env) (Q : Store → List Call → α → Prop) :
    Prog α → Store → List Call → Prop
  | .pure a, s, calls => Q s calls a
  | .throw, _, _ => False
  | .getUser id k, s, calls => (k (Phase2.getUser s.users id)).Ends env Q s calls
  | .setUser id user k, s, calls =>
    k.Ends env Q { s with users := Phase2.setUser s.users id user } calls
  | .getChat k, s, calls => (k (Phase2.getChat s.chats)).Ends env Q s calls
  | .addChat chat k, s, calls =>
    k.Ends env Q { s with chats := Phase2.addChat s.chats chat } calls
  | .randomUUID k, s, calls => (k env.uuid).Ends env Q s calls
  | .now k, s, calls => (k env.now).Ends env Q s calls
  | .call c k, s, calls => k.Ends env Q s (calls ++ [c])
  | .startGpt k, s, calls => k.Ends env Q s calls

section Ends

variable {α β : Type} {env : Env} {s : Store} {calls : List Call}
  {Q : Store → List Call → α → Prop} {R : Store → List Call → Next → Prop}

@[simp] theorem ends_bind {prog : Prog β} {f : β → Prog α} :
    (prog >>= f).Ends env Q s calls ↔
      prog.Ends env (fun s calls b => (f b).Ends env Q s calls) s calls := by
  change (prog.bind f).Ends env Q s calls ↔ _
  induction prog generalizing s calls with
  | pure b | throw => exact Iff.rfl
  | getUser id k ih | getChat k ih | randomUUID k ih | now k ih => exact ih _
  | setUser id user k ih | addChat chat k ih | call c k ih | startGpt k ih => exact ih

/-- `Ends` speaks about runs. -/
theorem Prog.ends_iff {prog : Prog α} : prog.Ends env Q s calls ↔
    ∃ a, (prog.run env s).result = some a ∧
      Q (prog.run env s).store (calls ++ callsOf (prog.run env s).effects) a := by
  induction prog generalizing s calls with
  | pure a => simp [Prog.Ends, Prog.run, callsOf]
  | throw => simp [Prog.Ends, Prog.run]
  | getUser id k ih | getChat k ih | now k ih => exact ih _
  | randomUUID k ih => exact ih _
  | setUser id user k ih | addChat chat k ih | startGpt k ih => exact ih
  | call c k ih =>
    simp only [Prog.Ends, ih, Prog.run, Outcome.after]
    simp [callsOf]

@[simp] theorem ends_pure {a : α} : (pure a : Prog α).Ends env Q s calls ↔ Q s calls a := Iff.rfl

@[simp] theorem ends_require {o : Option α} :
    (require o).Ends env Q s calls ↔ ∃ a, o = some a ∧ Q s calls a := by
  cases o with
  | none => exact iff_of_false id fun ⟨_, h, _⟩ => nomatch h
  | some a => exact ⟨fun h => ⟨a, rfl, h⟩, fun ⟨_, h, hQ⟩ => Option.some.inj h ▸ hQ⟩

@[simp] theorem ends_userGet {id : Option JsString}
    {Q : Store → List Call → Option UserData → Prop} :
    (userGet id).Ends env Q s calls ↔ Q s calls (getUser s.users id) := Iff.rfl

@[simp] theorem ends_userSet {id : Option JsString} {user : UserPatch}
    {Q : Store → List Call → Unit → Prop} : (userSet id user).Ends env Q s calls ↔
      Q { s with users := setUser s.users id user } calls () := Iff.rfl

@[simp] theorem ends_chatGet {Q : Store → List Call → List ChatData → Prop} :
    chatGet.Ends env Q s calls ↔ Q s calls s.chats := Iff.rfl

@[simp] theorem ends_chatAdd {chat : ChatData} {Q : Store → List Call → Unit → Prop} :
    (chatAdd chat).Ends env Q s calls ↔
      Q { s with chats := addChat s.chats chat } calls () := Iff.rfl

@[simp] theorem ends_dateNow {Q : Store → List Call → ℕ → Prop} :
    dateNow.Ends env Q s calls ↔ Q s calls env.now := Iff.rfl

@[simp] theorem ends_randomUUID {Q : Store → List Call → Uuid → Prop} :
    randomUUID.Ends env Q s calls ↔ Q s calls env.uuid := Iff.rfl

@[simp] theorem ends_startGpt {Q : Store → List Call → Unit → Prop} :
    startGpt.Ends env Q s calls ↔ Q s calls () := Iff.rfl

@[simp] theorem ends_writeHeaders {status : ℕ} {headers : List (JsString × JsString)}
    {Q : Store → List Call → Unit → Prop} : (writeHeaders status headers).Ends env Q s calls ↔
      Q s (calls ++ [.writeHeaders status headers]) () := Iff.rfl

@[simp] theorem ends_writeText {text : JsString} {Q : Store → List Call → Unit → Prop} :
    (writeText text).Ends env Q s calls ↔ Q s (calls ++ [.writeBody (utf8Encode text)]) () :=
  Iff.rfl

@[simp] theorem ends_writeBody {data : List UInt8} {Q : Store → List Call → Unit → Prop} :
    (writeBody data).Ends env Q s calls ↔ Q s (calls ++ [.writeBody data]) () := Iff.rfl

@[simp] theorem ends_endBody {Q : Store → List Call → Unit → Prop} :
    endBody.Ends env Q s calls ↔ Q s (calls ++ [.endBody]) () := Iff.rfl

end Ends

/-! ## One response -/

/-- However the handler is resumed, no stretch of it throws, and all its calls together,
behind those that it has made, are one response. -/
inductive Answers (p : Platform) : List Call → Next → Prop where
  | done {calls : List Call} (h : OneResponse calls) : Answers p calls .done
  | await {calls : List Call} {a : Await} (next : Env → Store → Next)
      (hresult : ∀ env s, ((a.resume p).run env s).result = some (next env s))
      (h : ∀ env s, Answers p (calls ++ callsOf ((a.resume p).run env s).effects) (next env s)) :
      Answers p calls (.await a)

/-- The request is answered by one response. -/
def Responds (p : Platform) (s : Store) (text : JsString) : Prop :=
  ∀ env, ∃ next, ((handle p text).run env s).result = some next ∧
    Answers p (callsOf ((handle p text).run env s).effects) next

section Answers

variable {p : Platform} {calls : List Call}

theorem answers_done : Answers p calls .done ↔ OneResponse calls :=
  ⟨fun h => by cases h with | done h => exact h, .done⟩

/-- It is enough to know how the rest of the handler ends. -/
theorem Answers.of_ends {a : Await}
    (h : ∀ env s, (a.resume p).Ends env (fun _ => Answers p) s calls) :
    Answers p calls (.await a) := by
  choose next hresult hanswers using fun env s => Prog.ends_iff.mp (h env s)
  exact .await next hresult hanswers

@[simp] theorem oneResponse_bodies (status : ℕ) (headers : List (JsString × JsString))
    (bodies : List (List UInt8)) :
    OneResponse (.writeHeaders status headers :: bodies.map .writeBody ++ [.endBody]) :=
  ⟨status, headers, bodies, rfl⟩

@[simp] theorem oneResponse_empty (status : ℕ) (headers : List (JsString × JsString)) :
    OneResponse [.writeHeaders status headers, .endBody] := ⟨status, headers, [], rfl⟩

@[simp] theorem oneResponse_body (status : ℕ) (headers : List (JsString × JsString))
    (data : List UInt8) : OneResponse [.writeHeaders status headers, .writeBody data, .endBody] :=
  ⟨status, headers, [data], rfl⟩

@[simp] theorem not_oneResponse_nil : ¬OneResponse [] := fun ⟨_, _, _, h⟩ => nomatch h

@[simp] theorem ends_redirect {env : Env} {s : Store} {url : JsString}
    {headers : List (JsString × JsString)} :
    (redirect url headers).Ends env (fun _ => Answers p) s [] := by
  simp [redirect, answers_done]

@[simp] theorem ends_notFound {env : Env} {s : Store} :
    notFound.Ends env (fun _ => Answers p) s [] := by
  simp [notFound, answers_done]

/-- The rest of `register` redirects. -/
@[simp] theorem answers_register (username password : JsString) :
    Answers p [] (.await (.register username password)) :=
  .of_ends fun env s => by simp [Await.resume, registerDigest]

/-- The rest of `login` redirects, with the right password and with a wrong one. -/
@[simp] theorem answers_login (username : Option JsString) (password : JsString) (u : UserData) :
    Answers p [] (.await (.login username password u)) := by
  refine .of_ends fun env s => ?_
  simp only [Await.resume, loginDigest]
  split <;> simp

/-- A settled `changed()` is answered by headers alone. -/
@[simp] theorem answers_changed (size : ℕ) : Answers p [] (.await (.changed size)) :=
  .of_ends fun env s => by simp [Await.resume, changedNext, answers_done]

/-- A file is sent chunk by chunk, behind the headers and the chunks that have been
sent. -/
theorem answers_stream (status : ℕ) (headers : List (JsString × JsString))
    (chunks sent : List (List UInt8)) :
    Answers p (.writeHeaders status headers :: sent.map .writeBody) (.await (.stream chunks)) := by
  induction chunks generalizing sent with
  | nil =>
    refine .of_ends fun env s => ?_
    simp only [Await.resume, streamNext, ends_bind, ends_endBody, ends_pure, answers_done]
    exact oneResponse_bodies ..
  | cons chunk chunks ih =>
    refine .of_ends fun env s => ?_
    simp only [Await.resume, streamNext, ends_bind, ends_writeBody, ends_pure]
    have hsent := ih (sent ++ [chunk])
    rwa [List.map_append, ← List.cons_append] at hsent

end Answers

/-! ## Requests that can be parsed -/

/-- The header lines of a request, as `entries` of `parse`. -/
def headerEntries (p : Platform) (request : JsString) : List (JsString × Option JsString) :=
  (headerLines (split (js "\r\n") request).tail).map (headerEntry p)

/-- The target in the start line, or the text that a missing one is converted to. -/
def rawPath (request : JsString) : JsString :=
  (keyValue (js " ") ((split (js "\r\n") request).headD [])).2.getD (js "undefined")

/-- The value of the first `host` line, if it has one. -/
def requestHost (p : Platform) (request : JsString) : JsString :=
  match ((headerEntries p request).find? fun e => e.1 = js "host").bind Prod.snd with
  | none => js "localhost"
  | some host => if host = [] then js "localhost" else host

/-- What `parse` needs of a request. -/
structure Parseable (p : Platform) (request : JsString) : Prop where
  /-- No header has a name that objects inherit. -/
  names : ∀ e ∈ headerEntries p request, e.1 ∉ objectPrototype
  /-- There is a `host` line. -/
  host : ∃ e ∈ headerEntries p request, e.1 = js "host"
  /-- The target and the host make a URL. -/
  url : (p.newURL (rawPath request) (js "http://" ++ requestHost p request)).isSome

section Parse

variable {acc headers : Dict JsString (List (Option JsString))}

/-- Header values behind those that are there, if there are any. -/
def moreValues (old : Option (List (Option JsString))) (values : List (Option JsString)) :
    Option (List (Option JsString)) :=
  if values = [] then old else some (old.getD [] ++ values)

theorem moreValues_cons (old : Option (List (Option JsString))) (value : Option JsString)
    (values : List (Option JsString)) :
    moreValues (some (old.getD [] ++ [value])) values = moreValues old (value :: values) := by
  unfold moreValues
  by_cases hvalues : values = []
  · simp [hvalues]
  · simp [hvalues]

/-- One header is added unless it has an inherited name. -/
theorem addHeader_eq (e : JsString × Option JsString)
    (hacc : ∀ key ∈ objectPrototype, acc.get? key = none) : addHeader acc e =
      if e.1 ∈ objectPrototype then none
      else some (acc.set e.1 ((acc.get? e.1).getD [] ++ [e.2])) := by
  unfold addHeader
  by_cases hin : e.1 ∈ objectPrototype
  · rw [property_inherited (hacc _ hin) hin, if_pos hin]
  · rw [if_neg hin]
    cases hget : acc.get? e.1 with
    | some values => rw [property_own hget, Option.getD_some]
    | none => rw [property_missing hget hin, Option.getD_none, List.nil_append]

/-- The `reduce` over the header lines: it throws at an inherited name, and otherwise
collects the values of every name in order. -/
theorem addHeaders_spec (entries : List (JsString × Option JsString))
    (hacc : ∀ key ∈ objectPrototype, acc.get? key = none) :
    ((∃ e ∈ entries, e.1 ∈ objectPrototype) ∧ entries.foldlM addHeader acc = none) ∨
    ((∀ e ∈ entries, e.1 ∉ objectPrototype) ∧ ∃ headers,
      entries.foldlM addHeader acc = some headers ∧ ∀ key, headers.get? key =
        moreValues (acc.get? key) ((entries.filter fun e => e.1 = key).map Prod.snd)) := by
  induction entries generalizing acc with
  | nil => exact .inr ⟨fun e he => (List.not_mem_nil he).elim, acc, rfl, fun key => rfl⟩
  | cons e entries ih =>
    rw [List.foldlM_cons, addHeader_eq e hacc]
    by_cases hin : e.1 ∈ objectPrototype
    · rw [if_pos hin]
      exact .inl ⟨⟨e, List.mem_cons_self, hin⟩, rfl⟩
    rw [if_neg hin]
    -- the accumulator never gets a key that objects inherit
    have hacc' : ∀ key ∈ objectPrototype,
        (acc.set e.1 ((acc.get? e.1).getD [] ++ [e.2])).get? key = none := by
      intro key hkey
      have hne : key ≠ e.1 := fun heq => hin (heq ▸ hkey)
      rw [Dict.get?_set_ne _ _ hne]
      exact hacc key hkey
    rcases ih hacc' with ⟨⟨e', he', hin'⟩, hnone⟩ | ⟨hnames, headers, hsome, hget⟩
    · exact .inl ⟨⟨e', List.mem_cons_of_mem _ he', hin'⟩, hnone⟩
    · refine .inr ⟨List.forall_mem_cons.mpr ⟨hin, hnames⟩, headers, hsome, fun key => ?_⟩
      rw [hget key]
      by_cases hkey : e.1 = key
      · rw [hkey, Dict.get?_set_self, moreValues_cons, List.filter_cons_of_pos (by simp [hkey])]
        rfl
      · rw [Dict.get?_set_ne _ _ (Ne.symm hkey), List.filter_cons_of_neg (by simp [hkey])]

/-- The host of a request is taken from its headers. -/
theorem hostOf_eq {p : Platform} {request : JsString}
    (hget : headers.get? (js "host") = moreValues none
      (((headerEntries p request).filter fun e => e.1 = js "host").map Prod.snd)) :
    hostOf headers = if ∃ e ∈ headerEntries p request, e.1 = js "host" then
      some (requestHost p request) else none := by
  unfold hostOf requestHost
  rw [hget, ← List.head?_filter]
  by_cases hhost : ∃ e ∈ headerEntries p request, e.1 = js "host"
  · rw [if_pos hhost]
    obtain ⟨e, he, hname⟩ := hhost
    have hmem : e ∈ (headerEntries p request).filter fun e => e.1 = js "host" :=
      List.mem_filter.mpr ⟨he, by simpa using hname⟩
    obtain ⟨e', rest, hcons⟩ := List.exists_cons_of_ne_nil (List.ne_nil_of_mem hmem)
    rw [hcons]
    simp only [moreValues, List.map_cons, reduceCtorEq, if_false, Option.getD_none,
      List.nil_append, Option.bind_eq_bind, Option.bind_some, List.head?_cons, Option.join_some]
    cases e'.2 <;> rfl
  · rw [if_neg hhost]
    have hempty : (headerEntries p request).filter (fun e => e.1 = js "host") = [] :=
      List.filter_eq_nil_iff.mpr fun e he => by simpa using fun hname => hhost ⟨e, he, hname⟩
    rw [hempty]
    rfl

/-- **`parse` does not throw** exactly on requests of this form. -/
theorem parse_isSome_iff (p : Platform) (request : JsString) :
    (parse p request).isSome ↔ Parseable p request := by
  have hempty : ∀ key ∈ objectPrototype,
      (Dict.empty : Dict JsString (List (Option JsString))).get? key = none := fun _ _ => rfl
  unfold parse
  simp only [Option.bind_eq_bind]
  rcases addHeaders_spec (headerEntries p request) hempty with
    ⟨⟨e, he, hin⟩, hnone⟩ | ⟨hnames, headers, hsome, hget⟩
  · unfold headerEntries at hnone
    rw [hnone]
    exact iff_of_false (by simp) fun h => h.names e he hin
  · have hhost := hostOf_eq (hget (js "host"))
    unfold headerEntries at hsome
    rw [hsome, Option.bind_some, hhost]
    -- with a host, what is left is the URL
    by_cases hline : ∃ e ∈ headerEntries p request, e.1 = js "host"
    · rw [if_pos hline, Option.bind_some]
      constructor
      · intro h
        refine ⟨hnames, hline, ?_⟩
        rw [Option.isSome_iff_exists] at h ⊢
        obtain ⟨ctx, hctx⟩ := h
        obtain ⟨path, hpath, -⟩ := Option.bind_eq_some_iff.mp hctx
        exact ⟨path, hpath⟩
      · intro h
        obtain ⟨path, hpath⟩ := Option.isSome_iff_exists.mp h.url
        unfold rawPath at hpath
        rw [hpath]
        rfl
    · rw [if_neg hline]
      exact iff_of_false (by simp) fun h => hline h.host

end Parse

/-! ## The handlers -/

/-- The path that a route is for. -/
def Route.path : Route → JsString
  | .reflect => js "/reflect"
  | .computeSqrt => js "/compute-sqrt-1e8-times"
  | .register => js "/register"
  | .login => js "/login"
  | .logout => js "/logout"
  | .chatroom => js "/chat"
  | .chatStatus => js "/chat-status"

/-- What the handler of a route needs of a request, on the user table that it finds. -/
def Route.Needs (p : Platform) (users : UserTable) (ctx : HTTPContext) : Route → Prop
  -- a registration has a name, and a password if the name has an allowed length
  | .register => getUser users ctx.userCookie = none → ctx.method = js "POST" →
      ∃ username, field ctx.form (js "username") = some username ∧
        (3 ≤ username.length ∧ username.length ≤ 32 → (field ctx.form (js "password")).isSome)
  -- a login with a name that is found has a password
  | .login => getUser users ctx.userCookie = none → ctx.method = js "POST" →
      (getUser users (field ctx.form (js "username"))).isSome →
        (field ctx.form (js "password")).isSome
  -- behind the session check there is an answer to GET, and to POST with a message
  | .chatroom => ∀ u, getUser users ctx.userCookie = some u → ctx.tokenCookie = u.token →
      ctx.method = js "GET" ∨ (ctx.method = js "POST" ∧ (postedMessage ctx).isSome)
  -- the context can be turned into JSON
  | .reflect => (p.stringify ctx).isSome
  | .logout | .chatStatus | .computeSqrt => True

section Handlers

variable {p : Platform} {router : Router} {ctx : HTTPContext} {env : Env} {s : Store}

theorem serveStatic_answers (path : JsString) :
    (router.serveStatic p path).Ends env (fun _ => Answers p) s [] := by
  unfold Router.serveStatic
  dsimp only
  split
  · simp [answers_done]
  split
  · split
    · simp [answers_done]
    · simp only [ends_bind, ends_writeHeaders, ends_pure]
      exact answers_stream _ _ _ []
  · simp

theorem register_answers_iff : (register p router ctx).Ends env (fun _ => Answers p) s [] ↔
    Route.register.Needs p s.users ctx := by
  unfold Route.Needs
  simp only [register, ends_bind, ends_userGet]
  cases hcookie : getUser s.users ctx.userCookie with
  | some u => simp
  | none =>
    simp only [Option.isSome_none, Bool.false_eq_true, if_false, true_implies]
    by_cases hget : ctx.method = js "GET"
    · have hpost : ctx.method ≠ js "POST" := by rw [hget]; decide
      simp only [if_pos hget]
      exact iff_of_true (serveStatic_answers _) fun h => absurd h hpost
    by_cases hpost : ctx.method = js "POST"
    · rw [if_neg hget, if_pos hpost]
      simp only [ends_bind, ends_require, hpost, true_implies]
      refine exists_congr fun username => and_congr_right fun _ => ?_
      by_cases hlength : username.length < 3 ∨ username.length > 32
      · simp only [if_pos hlength, ends_redirect, true_iff]
        omega
      · have hallowed : 3 ≤ username.length ∧ username.length ≤ 32 := by omega
        simp only [if_neg hlength, ends_bind, ends_require, hallowed, true_implies, and_self,
          Option.isSome_iff_exists]
        refine exists_congr fun password => and_iff_left ?_
        -- everything behind the fields redirects or waits for the digest
        split
        · simp
        split
        · simp
        simp only [ends_bind, ends_userGet]
        split <;> simp
    · simp [hget, hpost]

theorem login_answers_iff : (login p router ctx).Ends env (fun _ => Answers p) s [] ↔
    Route.login.Needs p s.users ctx := by
  unfold Route.Needs
  simp only [login, ends_bind, ends_userGet]
  cases hcookie : getUser s.users ctx.userCookie with
  | some u => simp
  | none =>
    simp only [Option.isSome_none, Bool.false_eq_true, if_false, true_implies]
    by_cases hget : ctx.method = js "GET"
    · have hpost : ctx.method ≠ js "POST" := by rw [hget]; decide
      simp only [if_pos hget]
      exact iff_of_true (serveStatic_answers _) fun h => absurd h hpost
    by_cases hpost : ctx.method = js "POST"
    · rw [if_neg hget, if_pos hpost]
      simp only [ends_bind, ends_userGet, hpost, true_implies]
      cases getUser s.users (field ctx.form (js "username")) with
      | none => simp
      | some u => simp [Option.isSome_iff_exists]
    · simp [hget, hpost]

theorem logout_answers : (logout ctx).Ends env (fun _ => Answers p) s [] := by
  simp only [logout, ends_bind, ends_userGet]
  split
  · split <;> simp
  · simp

/-- The session check redirects, or hands over to what is behind it. -/
theorem withSession_answers_iff {serve : UserData → Prog Next} :
    (withSession ctx serve).Ends env (fun _ => Answers p) s [] ↔
      ∀ u, getUser s.users ctx.userCookie = some u → ctx.tokenCookie = u.token →
        (serve u).Ends env (fun _ => Answers p) s [] := by
  simp only [withSession, ends_bind, ends_userGet]
  cases getUser s.users ctx.userCookie with
  | none => simp
  | some u => by_cases htoken : ctx.tokenCookie = u.token <;> simp [htoken]

theorem serveChat_answers_iff (u : UserData) :
    (serveChat p router ctx u).Ends env (fun _ => Answers p) s [] ↔
      ctx.method = js "GET" ∨ (ctx.method = js "POST" ∧ (postedMessage ctx).isSome) := by
  unfold serveChat
  by_cases hget : ctx.method = js "GET"
  · simp only [if_pos hget, ends_bind, ends_chatGet]
    refine iff_of_true ?_ (.inl hget)
    split
    · split
      · simp
      · simp [answers_done]
    · simp
  by_cases hpost : ctx.method = js "POST"
  · rw [if_neg hget, if_pos hpost]
    have hother : js "POST" ≠ js "GET" := by decide
    simp only [ends_bind, ends_require, hpost, hother, false_or, true_and,
      Option.isSome_iff_exists]
    refine exists_congr fun message => and_iff_left ?_
    simp only [ends_dateNow, ends_chatAdd]
    split <;> simp
  · simp [hget, hpost, answers_done]

theorem serveChatStatus_answers (u : UserData) :
    (serveChatStatus ctx u).Ends env (fun _ => Answers p) s [] := by
  unfold serveChatStatus
  split <;> simp

theorem reflect_answers_iff :
    (reflect p ctx).Ends env (fun _ => Answers p) s [] ↔ (p.stringify ctx).isSome := by
  simp [reflect, answers_done, Option.isSome_iff_exists]

theorem computeSqrt_answers : (computeSqrt p).Ends env (fun _ => Answers p) s [] := by
  simp [computeSqrt, answers_done]

/-- Every handler answers, on requests of the form that it needs. -/
theorem route_answers_iff (route : Route) :
    (route.handler p router ctx).Ends env (fun _ => Answers p) s [] ↔
      route.Needs p s.users ctx := by
  cases route with
  | reflect => exact reflect_answers_iff
  | computeSqrt => exact iff_of_true computeSqrt_answers trivial
  | register => exact register_answers_iff
  | login => exact login_answers_iff
  | logout => exact iff_of_true logout_answers trivial
  | chatroom =>
    refine withSession_answers_iff.trans ?_
    simp only [serveChat_answers_iff, Route.Needs]
  | chatStatus =>
    exact iff_of_true (withSession_answers_iff.mpr fun u _ _ => serveChatStatus_answers u) trivial

/-- The routes are set up at their paths. -/
theorem overrides_eq_some_iff (hrouter : makeRouter p = some router) (path : JsString)
    (route : Route) : router.overrides.get? path = some route ↔ path = route.path := by
  rw [makeRouter_overrides hrouter]
  -- one case for each path, and one for all other paths
  split_ifs with h1 h2 h3 h4 h5 h6 h7
  all_goals first
    | subst path; cases route <;> decide
    | cases route <;> simp_all [Route.path]

/-- The router answers if the handler at the path does; everything else is a static
file. -/
theorem routerHandle_answers_iff (hrouter : makeRouter p = some router) :
    (router.handle p ctx).Ends env (fun _ => Answers p) s [] ↔
      ∀ route : Route, ctx.path.pathname = route.path → route.Needs p s.users ctx := by
  simp only [← overrides_eq_some_iff hrouter, Router.handle]
  cases router.overrides.get? ctx.path.pathname with
  | none =>
    apply iff_of_true (serveStatic_answers _)
    intro route h
    cases h
  | some route =>
    simp only [route_answers_iff, Option.some.injEq]
    exact ⟨fun h _ heq => heq ▸ h, fun h => h route rfl⟩

end Handlers

/-! ## Exactly one response -/

/-- `handle` gets its router if the static files are there. -/
theorem makeRouter_isSome_iff (p : Platform) :
    (makeRouter p).isSome ↔ p.files (js "./site/static") = some .directory := by
  unfold makeRouter Router.serve
  cases p.files (js "./site/static") with
  | none => exact iff_of_false (by simp) (by simp)
  | some node =>
    cases node with
    | directory => exact iff_of_true rfl rfl
    | file content => exact iff_of_false (by simp) (by simp)

/-- **One response for every request**: a request is answered by exactly one response,
without an exception, if and only if it can be parsed, the static files are there, and
its route does not need something that it does not have. -/
theorem responds_iff (p : Platform) (s : Store) (text : JsString) :
    Responds p s text ↔ Parseable p text ∧ p.files (js "./site/static") = some .directory ∧
      ∀ ctx (route : Route), parse p text = some ctx → ctx.path.pathname = route.path →
        route.Needs p s.users ctx := by
  have hends : Responds p s text ↔
      ∀ env, (handle p text).Ends env (fun _ => Answers p) s [] :=
    forall_congr' fun env => by rw [Prog.ends_iff]; rfl
  rw [hends, ← parse_isSome_iff, ← makeRouter_isSome_iff]
  simp only [handle, ends_bind, ends_require, Option.isSome_iff_exists]
  constructor
  · intro h
    obtain ⟨ctx, hparse, router, hrouter, hanswers⟩ := h sampleEnv
    refine ⟨⟨ctx, hparse⟩, ⟨router, hrouter⟩, fun ctx' route hparse' => ?_⟩
    obtain rfl : ctx = ctx' := Option.some.inj (hparse.symm.trans hparse')
    exact (routerHandle_answers_iff hrouter).mp hanswers route
  · rintro ⟨⟨ctx, hparse⟩, ⟨router, hrouter⟩, hneeds⟩ env
    exact ⟨ctx, hparse, router, hrouter,
      (routerHandle_answers_iff hrouter).mpr fun route => hneeds ctx route hparse⟩

/-- A request without a `Host` header is not answered. -/
theorem not_responds_noHost :
    ¬∀ (p : Platform) (s : Store) (text : JsString), Responds p s text := by
  intro hresponds
  have hparse : (parse samplePlatform (js "GET / HTTP/1.0\r\n\r\n")).isNone := by decide +kernel
  obtain ⟨next, hresult, -⟩ :=
    hresponds samplePlatform Store.initial (js "GET / HTTP/1.0\r\n\r\n") sampleEnv
  rw [handle, Option.isNone_iff_eq_none.mp hparse, Prog.run_bind, run_require_none] at hresult
  cases hresult

end NetworkServers.Phase2
