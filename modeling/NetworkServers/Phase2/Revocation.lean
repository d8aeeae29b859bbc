import NetworkServers.Phase2.Sessions

/-!
# Revoked Tokens

A token is the hexadecimal form of a random UUID, so logins with different UUIDs issue
different tokens. With UUIDs that never repeat, a live token can only be the one of the
login that issued it, and a token that has been replaced or taken away stays dead.
-/

namespace NetworkServers.Phase2

open NetworkServers.Js NetworkServers.Runs

/-! ## Tokens determine their UUID -/

/-- Different UUIDs give different tokens. -/
theorem tokenOf_inj {uuid uuid' : Uuid} (h : tokenOf uuid = tokenOf uuid') : uuid = uuid' := by
  have htext := utf8Encode_inj_ascii uuid.ascii uuid'.ascii (hexEncode_inj h)
  cases uuid
  cases uuid'
  cases htext
  rfl

/-! ## The UUIDs of a log -/

/-- The random numbers drawn in a stretch. -/
def Entry.draws (e : Entry) : List Uuid :=
  e.effects.filterMap fun
    | .randomUUID uuid => some uuid
    | _ => none

/-- The random numbers drawn by a process, in order. -/
def Process.drawn (s : Process) : List Uuid := s.log.flatMap Entry.draws

section Log

variable {p : Platform} {s : Process}

/-- Every entry of the log is the run of its task. -/
theorem log_run {ls : List Label} (hrun : Reaches p ls s) : ∀ e ∈ s.log, ∃ env store,
    e.effects = ((e.task.prog p).run env store).effects := by
  induction hrun with
  | nil => exact fun e he => (List.not_mem_nil he).elim
  | @snoc _ t _ _ _ hstep hinv =>
    intro e he
    rcases stepCases hstep with ⟨text, env, rfl⟩ | ⟨-, env, -, waiting, pending, -, rfl⟩
    all_goals
      rcases List.mem_append.mp he with he | he
      · exact hinv e he
      · obtain rfl := List.mem_singleton.mp he
        exact ⟨env, t.store, rfl⟩

/-- A login draws one UUID and issues the token made of it, to one user. -/
theorem logsIn_draws {ls : List Label} (hrun : Reaches p ls s) {e : Entry} (he : e ∈ s.log)
    {key token : JsString} (hin : e.LogsIn key token) :
    ∃ uuid ∈ e.draws, token = tokenOf uuid ∧ ∀ key' token', e.LogsIn key' token' → key' = key := by
  obtain ⟨env, store, heffects⟩ := log_run hrun e he
  obtain ⟨⟨username, password, u, htask⟩, id, user, hmem, hid, htoken⟩ := hin
  have hstep := userStep (p := p) e.task env store
  -- the entry's effects are those of the rest of `login` with the right password
  generalize (e.task.prog p).run env store = o at heffects hstep
  rw [htask] at hstep
  cases hstep with
  | reads _ hreads => exact (hreads (.setUser id user) (heffects ▸ hmem) trivial).elim
  | loggedIn hpassword husers hlogin hdone =>
    rw [hlogin] at heffects
    have hset : ∀ id' user', Effect.setUser id' user' ∈ e.effects →
        id' = username ∧ user' = { u.spread with token := some (some (tokenOf env.uuid)) } := by
      intro id' user' hmem'
      rw [heffects, List.mem_cons, List.mem_cons] at hmem'
      rcases hmem' with hmem' | hmem' | hmem'
      · cases hmem'
      · exact Effect.setUser.inj hmem'
      · simp [redirectCalls, responseCalls] at hmem'
    refine ⟨env.uuid, by simp [Entry.draws, heffects], ?_, ?_⟩
    · obtain ⟨-, rfl⟩ := hset _ _ hmem
      exact (Option.some.inj (Option.some.inj htoken)).symm
    · rintro key' token' ⟨-, id', user', hmem', hid', -⟩
      rw [← hid, ← hid', (hset _ _ hmem).1, (hset _ _ hmem').1]

/-- **Revoked tokens stay dead**: if no UUID is drawn twice, then in every state after
the token of a login has been taken away by a logout or replaced by a later login, no
request with this token as its cookie gets past the session check; it is redirected. -/
theorem revoked_stays_dead {ls : List Label} (hrun : Reaches p ls s) (hfresh : s.drawn.Nodup)
    {key token : JsString} {before mid after : List Entry} {e e' : Entry}
    (hlog : s.log = before ++ e :: (mid ++ e' :: after)) (hin : e.LogsIn key token)
    (hrevoked : e'.LogsOut key ∨ ∃ token', e'.LogsIn key token')
    {text : JsString} {ctx : HTTPContext} {serve : UserData → Prog Next}
    (hrequest : SessionRequest p text ctx serve) (hcookie : ctx.tokenCookie = some token)
    (env : Env) :
    ¬PassesSession s.store.users ctx ∧ ∃ url headers, (handle p text).run env s.store =
      { store := s.store, effects := redirectCalls url headers, result := some .done } := by
  have hfails : ¬PassesSession s.store.users ctx := by
    rintro ⟨u, hu, hcheck⟩
    have htoken : u.token = some token := hcheck.symm.trans hcookie
    -- the record found is stored, and its token is that of a login of its user
    have hown := (getUser_cases hu).resolve_right fun ⟨_, _, hempty⟩ => by
      rw [hempty] at htoken
      cases htoken
    obtain ⟨before', e₁, after', hlog', -, hin', hlater⟩ :=
      (sessionInv hrun).live _ _ _ hown htoken
    obtain ⟨uuid, hdraws, htok, honly⟩ := logsIn_draws hrun (by rw [hlog]; simp) hin
    obtain ⟨uuid', hdraws', htok', -⟩ := logsIn_draws hrun (by rw [hlog']; simp) hin'
    obtain rfl : uuid = uuid' := tokenOf_inj (htok.symm.trans htok')
    -- both logins are the same entry of the log, so the revocation is behind it
    have hnodup : ((before ++ e :: (mid ++ e' :: after)).flatMap Entry.draws).Nodup := by
      rw [← hlog]
      exact hfresh
    obtain ⟨-, rfl, rfl⟩ := place_eq_of_nodup (hlog.symm.trans hlog') hnodup hdraws hdraws'
    have hkey := honly _ _ hin'
    obtain ⟨hnoLogout, hnoLogin⟩ := hlater e' (by simp)
    rw [hkey] at hnoLogout hnoLogin
    rcases hrevoked with hout | ⟨token', hin''⟩
    · exact hnoLogout hout
    · exact hnoLogin token' hin''
  refine ⟨hfails, ?_⟩
  rw [hrequest.handle_run]
  rcases withSession_run ctx serve env s.store with ⟨u, hu, hcheck, -⟩ | ⟨-, hredirect⟩
  · exact absurd ⟨u, hu, hcheck⟩ hfails
  · exact hredirect

end Log

/-- Alice registers, logs in and logs out. -/
def aliceLogsOut : List Label :=
  aliceLogsIn ++ [.request (sampleRequest "GET" "/logout" aliceCookies []) sampleEnv]

def aliceLoggedOut : Process :=
  (aliceLogsOut.foldlM (Process.step samplePlatform) Process.initial).get (by decide +kernel)

/-- The entries of the login and of the logout. -/
def aliceLogin : Entry := aliceLoggedOut.log.get ⟨3, by decide +kernel⟩

def aliceLogout : Entry := aliceLoggedOut.log.get ⟨4, by decide +kernel⟩

/-- The record that Alice's registration stores. -/
def aliceRecord : UserData :=
  { id := some (js "alice"), password := some (passwordHash samplePlatform (js "password1")) }

theorem aliceLogin_and_aliceLogout :
    aliceLogin.task = .resume (.login (some (js "alice")) (js "password1") aliceRecord) ∧
    Effect.setUser (some (js "alice"))
      { aliceRecord.spread with token := some (some (tokenOf sampleUuid)) } ∈
        aliceLogin.effects ∧
    aliceLogout.task = .start (sampleRequest "GET" "/logout" aliceCookies []) ∧
    Effect.setUser (some (js "alice")) { aliceRecord.spread with token := some none } ∈
      aliceLogout.effects ∧
    aliceLoggedOut.log.length = 5 ∧ aliceLoggedOut.drawn.Nodup := by
  decide +kernel

/-- The token of Alice's session does not get past the check after her logout. -/
theorem revoked_stays_dead_alice :
    ∃ url headers,
      (handle samplePlatform (sampleRequest "GET" "/chat" aliceCookies [])).run sampleEnv
        aliceLoggedOut.store =
      { store := aliceLoggedOut.store, effects := redirectCalls url headers
        result := some .done } := by
  have hrun : Reaches samplePlatform aliceLogsOut aliceLoggedOut :=
    reaches_sample (Option.some_get _).symm
  obtain ⟨hlogin, hissues, hlogout, hclears, hlength, hfresh⟩ := aliceLogin_and_aliceLogout
  -- the log ends with the login and the logout
  have hlog : aliceLoggedOut.log =
      aliceLoggedOut.log.take 3 ++ aliceLogin :: ([] ++ aliceLogout :: []) := by
    rw [aliceLogin, aliceLogout, List.nil_append, ← List.drop_eq_nil_of_le hlength.le,
      List.get_eq_getElem, List.get_eq_getElem, List.getElem_cons_drop, List.getElem_cons_drop,
      List.take_append_drop]
  have hin : aliceLogin.LogsIn (js "alice") (tokenOf sampleUuid) :=
    ⟨⟨_, _, _, hlogin⟩, _, _, hissues, rfl, rfl⟩
  have hout : aliceLogout.LogsOut (js "alice") :=
    ⟨⟨_, hlogout⟩, _, _, hclears, rfl, rfl⟩
  -- the later request
  obtain ⟨ctx, serve, hrequest, -, htoken, -⟩ := exists_sessionRequest
    (by decide +kernel : (parse samplePlatform (sampleRequest "GET" "/chat" aliceCookies [])).map
      (fun ctx => (ctx.method, ctx.path.pathname, ctx.userCookie, ctx.tokenCookie)) =
        some (js "GET", js "/chat", some (js "alice"), some (tokenOf sampleUuid)))
  exact (revoked_stays_dead hrun hfresh hlog hin (.inl hout) hrequest htoken sampleEnv).2

end NetworkServers.Phase2
