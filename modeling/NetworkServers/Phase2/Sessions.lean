import NetworkServers.Phase2.Stretches

/-!
# Sessions

Who passes the session check of `chatroom` and `chat_status`. The invariant ties every
token in the user table to the log: it was issued by a login of that user, and no later
login or logout of the user is there. What the check misses is a record without a token,
which a request without a token matches.
-/

namespace NetworkServers.Phase2

open NetworkServers.Js NetworkServers.Runs

/-! ## Logins and logouts in the log -/

/-- A stretch writes the token field of a user: to a token, or to `undefined`. -/
def Entry.PutsToken (e : Entry) (key : JsString) (token : Option JsString) : Prop :=
  ∃ id user, Effect.setUser id user ∈ e.effects ∧ propertyKey id = key ∧ user.token = some token

/-- A successful login of a user, which issues a token. -/
def Entry.LogsIn (e : Entry) (key token : JsString) : Prop :=
  (∃ username password u, e.task = .resume (.login username password u)) ∧
    e.PutsToken key (some token)

/-- A logout that takes the token of a user away. -/
def Entry.LogsOut (e : Entry) (key : JsString) : Prop :=
  (∃ text, e.task = .start text) ∧ e.PutsToken key none

/-- A registration that stores a record for a name. -/
def Entry.Registers (e : Entry) (key : JsString) : Prop :=
  (∃ username password, e.task = .resume (.register username password)) ∧
    ∃ id user, Effect.setUser id user ∈ e.effects ∧ propertyKey id = key

/-- A token that an earlier login of a registered user issued, and that no later login or
logout of the user has replaced or taken away. -/
def LiveToken (log : List Entry) (key token : JsString) : Prop :=
  ∃ before e after, log = before ++ e :: after ∧ (∃ e₀ ∈ before, e₀.Registers key) ∧
    e.LogsIn key token ∧ ∀ e' ∈ after, ¬e'.LogsOut key ∧ ∀ token', ¬e'.LogsIn key token'

/-- A stretch that does not write the user's token leaves it live. -/
theorem LiveToken.snoc {log : List Entry} {key token : JsString} {e : Entry}
    (h : LiveToken log key token) (hputs : ∀ token', ¬e.PutsToken key token') :
    LiveToken (log ++ [e]) key token := by
  obtain ⟨before, e₁, after, rfl, hregistered, hin, hlater⟩ := h
  refine ⟨before, e₁, after ++ [e], by simp, hregistered, hin, fun e' he' => ?_⟩
  rcases List.mem_append.mp he' with he' | he'
  · exact hlater e' he'
  · obtain rfl := List.mem_singleton.mp he'
    exact ⟨fun h => hputs _ h.2, fun _ h => hputs _ h.2⟩

/-! ## The invariant -/

/-- Every record belongs to a registered user, every token is live, and a login that
waits has found a stored record or nothing at all. -/
structure SessionInv (s : Process) : Prop where
  registered : ∀ key u, s.store.users.get? key = some u → ∃ e ∈ s.log, e.Registers key
  live : ∀ key u token, s.store.users.get? key = some u → u.token = some token →
    LiveToken s.log key token
  login : ∀ w ∈ s.pending, ∀ username password u, w.await = .login username password u →
    (∃ u', s.store.users.get? (propertyKey username) = some u') ∨ u = {}

theorem sessionInv_initial : SessionInv Process.initial where
  registered := fun _ _ h => nomatch h
  live := fun _ _ _ h => nomatch h
  login := fun _ h => (List.not_mem_nil h).elim

/-! ## How a record changes -/

/-- What a stretch has done to the record that is stored for a key afterwards. -/
inductive RecordChange (users : UserTable) (e : Entry) (key : JsString) (u' : UserData) :
    Prop where
  /-- It is as it was, and its token has not been written. -/
  | same (hget : users.get? key = some u') (hputs : ∀ token, ¬e.PutsToken key token)
  /-- A registration has created it, without a token. -/
  | created (hregisters : e.Registers key) (htoken : u'.token = none)
  /-- A registration has written into it, but not its token. -/
  | merged (u : UserData) (hget : users.get? key = some u) (htoken : u'.token = u.token)
      (hputs : ∀ token, ¬e.PutsToken key token)
  | loggedIn (u : UserData) (token : JsString) (hget : users.get? key = some u)
      (hin : e.LogsIn key token) (htoken : u'.token = some token)
  | loggedOut (u : UserData) (hget : users.get? key = some u) (htoken : u'.token = none)

section Change

variable {p : Platform} {env : Env} {users : UserTable} {o : Outcome Next}
  {task : Task}

/-- No stretch but its own login or logout writes a token. -/
theorem not_putsToken_redirect {e : Entry} {id : Option JsString} {user : UserPatch}
    (effects : List Effect) {url : JsString} {headers : List (JsString × JsString)}
    {key : JsString} (heffects : e.effects = effects ++ .setUser id user :: redirectCalls url headers)
    (hother : ∀ id' user', Effect.setUser id' user' ∉ effects)
    (hkey : key ≠ propertyKey id ∨ user.token = none) (token : Option JsString) :
    ¬e.PutsToken key token := by
  rintro ⟨id', user', hmem, hid, htoken⟩
  rw [heffects, List.mem_append, List.mem_cons] at hmem
  rcases hmem with hmem | hmem | hmem
  · exact hother _ _ hmem
  · obtain ⟨rfl, rfl⟩ := Effect.setUser.inj hmem
    rcases hkey with hkey | hkey
    · exact hkey hid.symm
    · rw [hkey] at htoken
      cases htoken
  · simp [redirectCalls, responseCalls] at hmem

/-- Every record that is stored after a stretch has changed in one of these ways. -/
theorem recordChange (request : ℕ) (h : UserStep p env users task o)
    (hlogin : ∀ username password u, task = .resume (.login username password u) →
      (∃ u', users.get? (propertyKey username) = some u') ∨ u = {})
    {key : JsString} {u' : UserData} (hget : o.store.users.get? key = some u') :
    RecordChange users
      { request := request, task := task, effects := o.effects, result := o.result } key u' := by
  cases h with
  | reads husers heffects hnext =>
    refine .same (husers ▸ hget) ?_
    rintro token ⟨id, user, hmem, -, -⟩
    exact heffects _ hmem trivial
  | @registered username password o husers heffects hdone =>
    rw [husers] at hget
    by_cases hkey : key = propertyKey (some username)
    · rw [hkey] at hget ⊢
      cases hstored : users.get? (propertyKey (some username)) with
      | some u =>
        rw [get?_setUser_own hstored, Option.some.injEq] at hget
        refine .merged u hstored (hget ▸ rfl) (not_putsToken_redirect [] heffects
          (fun _ _ => List.not_mem_nil) (.inr rfl))
      | none =>
        by_cases hin : propertyKey (some username) ∈ objectPrototype
        · rw [setUser_inherited hstored hin, hstored] at hget
          cases hget
        · rw [get?_setUser_missing hstored hin, Option.some.injEq] at hget
          exact .created ⟨⟨_, _, rfl⟩, _, _, heffects ▸ List.mem_cons_self, rfl⟩ (hget ▸ rfl)
    · rw [get?_setUser_ne hkey] at hget
      exact .same hget (not_putsToken_redirect [] heffects
        (fun _ _ => List.not_mem_nil) (.inl hkey))
  | @loggedIn username password u o hpassword husers heffects hdone =>
    rw [husers] at hget
    by_cases hkey : key = propertyKey username
    · rw [hkey] at hget ⊢
      -- a record with a password is a stored one
      obtain ⟨stored, hstored⟩ := (hlogin _ _ _ rfl).resolve_right fun hu => by
        rw [hu] at hpassword
        cases hpassword
      rw [get?_setUser_own hstored, Option.some.injEq] at hget
      refine .loggedIn stored (tokenOf env.uuid) hstored ⟨⟨_, _, _, rfl⟩, username,
        { u.spread with token := some (some (tokenOf env.uuid)) }, ?_, rfl, rfl⟩ (hget ▸ rfl)
      rw [heffects]
      exact List.mem_cons_of_mem _ List.mem_cons_self
    · rw [get?_setUser_ne hkey] at hget
      exact .same hget (not_putsToken_redirect [.randomUUID env.uuid] heffects
        (by simp) (.inl hkey))
  | @loggedOut text ctx u o hparse hpath hfound htoken husers heffects hdone =>
    rw [husers] at hget
    by_cases hkey : key = propertyKey ctx.userCookie
    · rw [hkey] at hget ⊢
      cases hstored : users.get? (propertyKey ctx.userCookie) with
      | some stored =>
        rw [get?_setUser_own hstored, Option.some.injEq] at hget
        exact .loggedOut stored hstored (hget ▸ rfl)
      | none =>
        rcases getUser_cases hfound with hown | ⟨-, hin, -⟩
        · rw [hstored] at hown
          cases hown
        · rw [setUser_inherited hstored hin, hstored] at hget
          cases hget
    · rw [get?_setUser_ne hkey] at hget
      exact .same hget (not_putsToken_redirect [] heffects
        (fun _ _ => List.not_mem_nil) (.inl hkey))

/-- No stretch removes a record. -/
theorem UserStep.get?_of_some (h : UserStep p env users task o) {key : JsString} {u : UserData}
    (hget : users.get? key = some u) : ∃ u', o.store.users.get? key = some u' := by
  cases h with
  | reads husers => exact ⟨u, husers ▸ hget⟩
  | registered husers | loggedIn _ husers | loggedOut _ _ _ _ husers =>
    rw [husers]
    exact get?_setUser_of_some hget

end Change

/-! ## The invariant is kept -/

section Step

variable {p : Platform} {s t : Process}

/-- A stretch keeps the invariant. -/
theorem SessionInv.perform (h : SessionInv s) (env : Env) (request : ℕ) (task : Task)
    (pending : List Pending) (requests : ℕ) (hpending : ∀ w ∈ pending, w ∈ s.pending)
    (htask : ∀ username password u, task = .resume (.login username password u) →
      (∃ u', s.store.users.get? (propertyKey username) = some u') ∨ u = {}) :
    SessionInv (s.perform p env request task pending requests) := by
  have hstep := userStep (p := p) task env s.store
  refine ⟨fun key u hget => ?_, fun key u token hget htoken => ?_,
    fun w hw username password u hlogin => ?_⟩
  · -- records stay registered
    rcases recordChange request hstep htask hget with
      ⟨hold, -⟩ | ⟨hregisters, -⟩ | ⟨_, hold, -, -⟩ | ⟨_, _, hold, -, -⟩ | ⟨_, hold, -⟩
    on_goal 2 => exact ⟨_, List.mem_append_right _ List.mem_cons_self, hregisters⟩
    all_goals
      obtain ⟨e, he, hregisters⟩ := h.registered key _ hold
      exact ⟨e, List.mem_append_left _ he, hregisters⟩
  · -- a token is live as before, or the login has just issued it
    rcases recordChange request hstep htask hget with
      ⟨hold, hputs⟩ | ⟨-, hnone⟩ | ⟨_, hold, hsame, hputs⟩ | ⟨_, token', hold, hin, hissued⟩ |
      ⟨_, hold, hnone⟩
    · exact (h.live key _ token hold htoken).snoc hputs
    · rw [hnone] at htoken
      cases htoken
    · exact (h.live key _ token hold (hsame ▸ htoken)).snoc hputs
    · obtain rfl : token' = token := Option.some.inj (hissued.symm.trans htoken)
      exact ⟨s.log, _, [], rfl, h.registered key _ hold, hin, fun e' he' =>
        (List.not_mem_nil he').elim⟩
    · rw [hnone] at htoken
      cases htoken
  · rcases List.mem_append.mp hw with hw | hw
    · -- what waited before waits on records that are still there
      rcases h.login w (hpending w hw) username password u hlogin with ⟨u', hstored⟩ | hempty
      · exact .inl (hstep.get?_of_some hstored)
      · exact .inr hempty
    · -- a login that begins to wait has just found its record
      obtain ⟨hresult, -⟩ := mem_waiting.mp hw
      rw [hlogin] at hresult
      obtain ⟨husers, hfound⟩ := hstep.waits hresult
      rcases getUser_cases hfound with hown | ⟨-, -, hempty⟩
      · exact .inl ⟨u, husers ▸ hown⟩
      · exact .inr hempty

/-- One step keeps the invariant. -/
theorem SessionInv.step {l : Label} (h : SessionInv s) (hstep : Steps p s l t) :
    SessionInv t := by
  rcases stepCases hstep with ⟨text, env, rfl⟩ | ⟨-, env, -, waiting, pending, hperm, rfl⟩
  · exact h.perform env _ _ _ _ (fun _ hw => hw) fun _ _ _ htask => nomatch htask
  · refine h.perform env _ _ _ _ (fun w hw => hperm.mem_iff.mpr (List.mem_cons_of_mem _ hw)) ?_
    intro username password u htask
    exact h.login waiting (hperm.mem_iff.mpr List.mem_cons_self) username password u
      (Task.resume.inj htask)

/-- The invariant holds in every state that a run reaches. -/
theorem sessionInv {ls : List Label} (hrun : Reaches p ls s) : SessionInv s :=
  hrun.invariant sessionInv_initial fun _ _ _ h hstep => h.step hstep

end Step

/-! ## The session check -/

/-- A request gets past the session check. -/
def PassesSession (users : UserTable) (ctx : HTTPContext) : Prop :=
  ∃ u, getUser users ctx.userCookie = some u ∧ ctx.tokenCookie = u.token

/-- Behind the check, what comes next runs; otherwise there is a redirect. -/
theorem withSession_run (ctx : HTTPContext) (serve : UserData → Prog Next) (env : Env)
    (s : Store) :
    (∃ u, getUser s.users ctx.userCookie = some u ∧ ctx.tokenCookie = u.token ∧
      (withSession ctx serve).run env s = (serve u).run env s) ∨
    (¬PassesSession s.users ctx ∧ ∃ url headers, (withSession ctx serve).run env s =
      { store := s, effects := redirectCalls url headers, result := some .done }) := by
  cases hu : getUser s.users ctx.userCookie with
  | none =>
    refine .inr ⟨?_, js "/register", [], by simp [withSession, Prog.run_bind, hu]⟩
    rintro ⟨u, hget, -⟩
    rw [hu] at hget
    cases hget
  | some u =>
    -- a known user gets past the check with the token of its record only
    by_cases htoken : ctx.tokenCookie = u.token
    · refine .inl ⟨u, rfl, htoken, ?_⟩
      simp [withSession, Prog.run_bind, hu, htoken]
    · refine .inr ⟨?_, js "/login", clearCookies, ?_⟩
      · rintro ⟨u', hget, h⟩
        obtain rfl : u = u' := Option.some.inj (hu.symm.trans hget)
        exact htoken h
      · simp [withSession, Prog.run_bind, hu, htoken]

/-- A request text that reaches a handler with the session check, and what comes behind
the check. -/
structure SessionRequest (p : Platform) (text : JsString) (ctx : HTTPContext)
    (serve : UserData → Prog Next) : Prop where
  parsed : parse p text = some ctx
  routed : ∃ router, makeRouter p = some router ∧
    ((ctx.path.pathname = js "/chat" ∧ serve = serveChat p router ctx) ∨
      (ctx.path.pathname = js "/chat-status" ∧ serve = serveChatStatus ctx))

theorem SessionRequest.handle_run {p : Platform} {text : JsString} {ctx : HTTPContext}
    {serve : UserData → Prog Next} (h : SessionRequest p text ctx serve) (env : Env)
    (s : Store) : (handle p text).run env s = (withSession ctx serve).run env s := by
  obtain ⟨hparse, router, hrouter, hroute⟩ := h
  simp only [handle, hparse, hrouter, Prog.run_bind, run_require_some, Outcome.after_nil,
    Router.handle, makeRouter_overrides hrouter]
  rcases hroute with ⟨hpath, rfl⟩ | ⟨hpath, rfl⟩
  · rw [hpath, if_neg (by decide), if_pos rfl]
    rfl
  · rw [hpath, if_pos rfl]
    rfl

/-! ## Session safety -/

/-- A stretch answers, stores something, or will answer later. -/
def Outcome.Acts (o : Outcome Next) : Prop := o.effects ≠ [] ∨ ∃ a, o.result = some (.await a)

/-- The request gets past the session check, and something is served or stored as the
record found. -/
def Served (p : Platform) (s : Store) (env : Env) (text : JsString) : Prop :=
  ∃ ctx serve, SessionRequest p text ctx serve ∧ PassesSession s.users ctx ∧
    ((handle p text).run env s).Acts

/-- The request carries a live token of the user that its cookie names. -/
def Authorised (p : Platform) (log : List Entry) (text : JsString) : Prop :=
  ∃ ctx token, parse p text = some ctx ∧ ctx.tokenCookie = some token ∧
    LiveToken log (propertyKey ctx.userCookie) token

/-- The handlers behind the session check answer: `chat_status` always, `chatroom` to GET
and to POST with a message that can be decoded. -/
def Answered (ctx : HTTPContext) : Prop :=
  ctx.path.pathname = js "/chat" →
    ctx.method = js "GET" ∨ (ctx.method = js "POST" ∧ (postedMessage ctx).isSome)

/-- What the session check misses: no token on either side. -/
def Unguarded (p : Platform) (s : Store) (text : JsString) : Prop :=
  ∃ ctx serve u, SessionRequest p text ctx serve ∧ getUser s.users ctx.userCookie = some u ∧
    u.token = none ∧ ctx.tokenCookie = none ∧ Answered ctx

/-- `chatroom` behind its check acts on GET and on POST with a message. -/
theorem serveChat_acts_iff (p : Platform) (router : Router) (ctx : HTTPContext) (u : UserData)
    (env : Env) (s : Store) : ((serveChat p router ctx u).run env s).Acts ↔
      ctx.method = js "GET" ∨ (ctx.method = js "POST" ∧ (postedMessage ctx).isSome) := by
  by_cases hget : ctx.method = js "GET"
  · refine iff_of_true (.inl ?_) (.inl hget)
    simp only [serveChat, hget, if_true, Prog.run_bind, run_chatGet, Outcome.after_nil]
    split
    · split
      · simp [notFoundCalls, responseCalls]
      · simp [Prog.run_bind, Outcome.after]
    · simp [notFoundCalls, responseCalls]
  by_cases hpost : ctx.method = js "POST"
  · have hne : ¬js "POST" = js "GET" := by decide
    simp only [serveChat, hpost, hne, if_false, if_true, false_or, true_and]
    cases hmessage : postedMessage ctx with
    | none =>
      -- decoding throws before anything is stored
      refine iff_of_false ?_ (by simp)
      simp [Outcome.Acts, Prog.run_bind]
    | some message =>
      refine iff_of_true (.inl ?_) rfl
      simp only [Prog.run_bind, run_require_some, run_dateNow, run_chatAdd]
      split <;> simp [Outcome.after]
  · -- other methods are not answered
    refine iff_of_false ?_ (by simp [hget, hpost])
    simp [Outcome.Acts, serveChat, hget, hpost]

/-- Behind the check, an answered request has an effect at once or later, and another one
has none. -/
theorem serve_acts_iff {p : Platform} {text : JsString} {ctx : HTTPContext}
    {serve : UserData → Prog Next} (h : SessionRequest p text ctx serve) (u : UserData)
    (env : Env) (s : Store) : ((serve u).run env s).Acts ↔ Answered ctx := by
  obtain ⟨-, router, -, ⟨hpath, rfl⟩ | ⟨hpath, rfl⟩⟩ := h
  · rw [serveChat_acts_iff]
    simp only [Answered, hpath, forall_const]
  · -- `chat_status` answers to every method
    refine iff_of_true ?_ fun hchat => absurd (hpath.symm.trans hchat) (by decide)
    by_cases hget : ctx.method = js "GET"
    · refine .inr ⟨.changed s.chats.length, ?_⟩
      simp [serveChatStatus, hget, Prog.run_bind, Outcome.after]
    · exact .inl (by simp [serveChatStatus, hget, notFoundCalls, responseCalls])

/-- A request is served as a record exactly if it passes the check and is answered. -/
theorem served_iff {p : Platform} {s : Store} {env : Env} {text : JsString} :
    Served p s env text ↔ ∃ ctx serve, SessionRequest p text ctx serve ∧
      PassesSession s.users ctx ∧ Answered ctx := by
  refine exists_congr fun ctx => exists_congr fun serve => and_congr_right fun hrequest =>
    and_congr_right fun hpasses => ?_
  rw [hrequest.handle_run]
  rcases withSession_run ctx serve env s with ⟨u, -, -, hrun⟩ | ⟨hfails, -⟩
  · rw [hrun, serve_acts_iff hrequest]
  · exact absurd hpasses hfails

/-- **Session safety**: in every state that a run of requests reaches, and for every
later request, what is served or stored as the record found for the cookie `user` is
authorised by a live token of that user, if and only if the request is not one that the
check misses. -/
theorem sessionSafe_iff {p : Platform} {ls : List Label} {s : Process}
    (hrun : Reaches p ls s) (env : Env) (text : JsString) :
    (Served p s.store env text → Authorised p s.log text) ↔ ¬Unguarded p s.store text := by
  have hinv := sessionInv hrun
  constructor
  · -- without a token cookie nothing is authorised
    rintro hsafe ⟨ctx, serve, u, hrequest, hu, hnone, hcookie, hanswered⟩
    obtain ⟨ctx', token, hparse, htoken, -⟩ := hsafe (served_iff.mpr
      ⟨ctx, serve, hrequest, ⟨u, hu, hcookie.trans hnone.symm⟩, hanswered⟩)
    obtain rfl : ctx = ctx' := Option.some.inj (hrequest.parsed.symm.trans hparse)
    rw [hcookie] at htoken
    cases htoken
  · intro hguarded hserved
    obtain ⟨ctx, serve, hrequest, ⟨u, hu, hcheck⟩, hanswered⟩ := served_iff.mp hserved
    cases htoken : u.token with
    | none =>
      exact absurd ⟨ctx, serve, u, hrequest, hu, htoken, hcheck.trans htoken, hanswered⟩ hguarded
    | some token =>
      -- a record with a token is a stored one, and its token is live
      rcases getUser_cases hu with hown | ⟨-, -, hempty⟩
      · exact ⟨ctx, token, hrequest.parsed, hcheck.trans htoken,
          hinv.live _ _ _ hown htoken⟩
      · rw [hempty] at htoken
        cases htoken

/-- A form with Alice's name. -/
def aliceForm (password : String) : JsString :=
  js "username=alice" ++ js "&password=" ++ js password

/-- Alice registers. -/
def aliceRegisters : List Label :=
  [.request (sampleRequest "POST" "/register" [] (aliceForm "password1")) sampleEnv,
    .resume 0 sampleEnv false]

/-- The state in which Alice has registered and never logged in. -/
def aliceRegistered : Process :=
  (aliceRegisters.foldlM (Process.step samplePlatform) Process.initial).get (by decide +kernel)

theorem reaches_aliceRegistered : Reaches samplePlatform aliceRegisters aliceRegistered :=
  reaches_sample (Option.some_get _).symm

/-- Alice registers and logs in. -/
def aliceLogsIn : List Label :=
  aliceRegisters ++
    [.request (sampleRequest "POST" "/login" [] (aliceForm "password1")) sampleEnv,
      .resume 0 sampleEnv false]

def aliceLoggedIn : Process :=
  (aliceLogsIn.foldlM (Process.step samplePlatform) Process.initial).get (by decide +kernel)

theorem reaches_aliceLoggedIn : Reaches samplePlatform aliceLogsIn aliceLoggedIn :=
  reaches_sample (Option.some_get _).symm

/-- The cookies of Alice's session. -/
def aliceCookies : JsString := js "user=alice; token=" ++ tokenOf sampleUuid

/-- A request for the chat page with cookies. -/
theorem exists_sessionRequest {text : JsString} {user token : Option JsString}
    (h : (parse samplePlatform text).map
      (fun ctx => (ctx.method, ctx.path.pathname, ctx.userCookie, ctx.tokenCookie)) =
        some (js "GET", js "/chat", user, token)) :
    ∃ ctx serve, SessionRequest samplePlatform text ctx serve ∧ ctx.userCookie = user ∧
      ctx.tokenCookie = token ∧ Answered ctx := by
  obtain ⟨ctx, hctx, hfields⟩ := Option.map_eq_some_iff.mp h
  simp only [Prod.mk.injEq] at hfields
  obtain ⟨hmethod, hpath, huser, htoken⟩ := hfields
  obtain ⟨router, hrouter⟩ := Option.isSome_iff_exists.mp
    (by decide +kernel : (makeRouter samplePlatform).isSome)
  exact ⟨ctx, _, ⟨hctx, router, hrouter, .inl ⟨hpath, rfl⟩⟩, huser, htoken, fun _ => .inl hmethod⟩

/-- The chat page is served to Alice, who has the token of her login. -/
theorem sessionSafe_iff_alice :
    Served samplePlatform aliceLoggedIn.store sampleEnv
        (sampleRequest "GET" "/chat" aliceCookies []) ∧
      Authorised samplePlatform aliceLoggedIn.log (sampleRequest "GET" "/chat" aliceCookies []) := by
  obtain ⟨ctx, serve, hrequest, huser, htoken, hanswered⟩ := exists_sessionRequest
    (by decide +kernel : (parse samplePlatform (sampleRequest "GET" "/chat" aliceCookies [])).map
      (fun ctx => (ctx.method, ctx.path.pathname, ctx.userCookie, ctx.tokenCookie)) =
        some (js "GET", js "/chat", some (js "alice"), some (tokenOf sampleUuid)))
  have hfound : (getUser aliceLoggedIn.store.users (some (js "alice"))).map UserData.token =
      some (some (tokenOf sampleUuid)) := by decide +kernel
  obtain ⟨u, hu, hissued⟩ := Option.map_eq_some_iff.mp hfound
  have hserved : Served samplePlatform aliceLoggedIn.store sampleEnv
      (sampleRequest "GET" "/chat" aliceCookies []) :=
    served_iff.mpr ⟨ctx, serve, hrequest, ⟨u, huser ▸ hu, htoken.trans hissued.symm⟩, hanswered⟩
  refine ⟨hserved, (sessionSafe_iff reaches_aliceLoggedIn sampleEnv _).mpr ?_ hserved⟩
  -- a request that the check misses has no token
  rintro ⟨ctx', _, _, hrequest', -, -, hnone, -⟩
  obtain rfl : ctx = ctx' := Option.some.inj (hrequest.parsed.symm.trans hrequest'.parsed)
  rw [htoken] at hnone
  cases hnone

/-- Without a token cookie the chat page is served as Alice, although nobody has logged in. -/
theorem not_sessionSafe_alice :
    ¬∀ (p : Platform) (ls : List Label) (s : Process), Reaches p ls s →
      ∀ (env : Env) (text : JsString), Served p s.store env text → Authorised p s.log text := by
  intro hsafe
  obtain ⟨ctx, serve, hrequest, huser, htoken, hanswered⟩ := exists_sessionRequest
    (by decide +kernel : (parse samplePlatform (sampleRequest "GET" "/chat" (js "user=alice") [])).map
      (fun ctx => (ctx.method, ctx.path.pathname, ctx.userCookie, ctx.tokenCookie)) =
        some (js "GET", js "/chat", some (js "alice"), none))
  have hfound : (getUser aliceRegistered.store.users (some (js "alice"))).map UserData.token =
      some none := by decide +kernel
  obtain ⟨u, hu, hnone⟩ := Option.map_eq_some_iff.mp hfound
  obtain ⟨ctx', token, hctx', hcookie, -⟩ := hsafe _ _ _ reaches_aliceRegistered sampleEnv _
    (served_iff.mpr ⟨ctx, serve, hrequest, ⟨u, huser ▸ hu, htoken.trans hnone.symm⟩, hanswered⟩)
  obtain rfl : ctx = ctx' := Option.some.inj (hrequest.parsed.symm.trans hctx')
  rw [htoken] at hcookie
  cases hcookie

end NetworkServers.Phase2
