import NetworkServers.Phase2.Sessions

/-!
# Passwords

`register` checks that a name is free before its digest and stores the record behind it.
In runs in which no registration gets to its digest while another one for the same name
waits there, this is enough: a name is registered once, and its password never changes.
Logins and logouts write back the password that they have read, which is the stored one.
-/

namespace NetworkServers.Phase2

open NetworkServers.Js NetworkServers.Runs
open Prog (require)

/-! ## Orderly requests -/

/-- A registration for the name waits for its digest. -/
def Process.Registering (s : Process) (username : JsString) : Prop :=
  ∃ w ∈ s.pending, ∃ password, w.await = .register username password

/-- A registration request does not overtake another one for the same name. It is
routed, and has a password field if its password is looked at. -/
def Orderly (p : Platform) (s : Process) : Label → Prop
  | .request text _ => ∀ ctx username, parse p text = some ctx → RegisterRequest ctx username →
      (makeRouter p).isSome ∧
      (getUser s.store.users ctx.userCookie = none → 3 ≤ username.length ∧ username.length ≤ 32 →
        (field ctx.form (js "password")).isSome) ∧
      ∀ password, StartsRegistration s.store.users ctx username password →
        ¬s.Registering username
  | .resume _ _ _ => True

/-- A registration that stores a record for a name. -/
def Entry.StoresUser (e : Entry) (username : JsString) : Prop :=
  (∃ password, e.task = .resume (.register username password)) ∧
    ∃ user, Effect.setUser (some username) user ∈ e.effects

/-! ## What a stretch does to passwords -/

section Change

variable {p : Platform} {env : Env} {users : UserTable} {o : Outcome Next} {task : Task}

/-- Every stored record is still there, with the same password. -/
def KeepsPasswords (s t : Process) : Prop :=
  ∀ key u, s.store.users.get? key = some u →
    ∃ u', t.store.users.get? key = some u' ∧ u'.password = u.password

theorem KeepsPasswords.refl (s : Process) : KeepsPasswords s s := fun _ u hget => ⟨u, hget, rfl⟩

theorem KeepsPasswords.trans {s t v : Process} (hst : KeepsPasswords s t)
    (htv : KeepsPasswords t v) : KeepsPasswords s v := by
  intro key u hget
  obtain ⟨u', hget', hsame⟩ := hst key u hget
  obtain ⟨u'', hget'', hsame'⟩ := htv key u' hget'
  exact ⟨u'', hget'', hsame'.trans hsame⟩

/-- A login that waits holds the stored password, or has found nothing stored. -/
def LoginFresh (users : UserTable) (username : Option JsString) (u : UserData) : Prop :=
  (∃ u', users.get? (propertyKey username) = some u' ∧ u'.password = u.password) ∨ u = {}

/-- Writing back the password of a record, whatever the token, changes no password. -/
theorem password_setUser {id : Option JsString} {u : UserData} {token : Option (Option JsString)}
    (h : ∀ u', users.get? (propertyKey id) = some u' → u'.password = u.password)
    {key : JsString} {v : UserData} (hget : users.get? key = some v) :
    ∃ v', (setUser users id { u.spread with token := token }).get? key = some v' ∧
      v'.password = v.password := by
  by_cases hkey : key = propertyKey id
  · rw [hkey] at hget ⊢
    refine ⟨_, get?_setUser_own hget, ?_⟩
    have hsame := h v hget
    cases hpassword : u.password with
    | none => simp [UserData.assign, UserData.spread, hpassword]
    | some hash => simp [UserData.assign, UserData.spread, hpassword, hsame]
  · exact ⟨v, (get?_setUser_ne hkey).trans hget, rfl⟩

/-- No stretch changes a stored password if a registration's name is still free. -/
theorem UserStep.password (h : UserStep p env users task o)
    (hlogin : ∀ username password u, task = .resume (.login username password u) →
      LoginFresh users username u)
    (hregister : ∀ username password, task = .resume (.register username password) →
      users.get? username = none)
    {key : JsString} {u : UserData} (hget : users.get? key = some u) :
    ∃ u', o.store.users.get? key = some u' ∧ u'.password = u.password := by
  cases h with
  | reads husers => exact ⟨u, husers ▸ hget, rfl⟩
  | @registered username password _ husers =>
    -- the name is free, so it is not the one of the stored record
    have hfree := hregister username password rfl
    have hkey : key ≠ username := fun hkey => by
      rw [hkey, hfree] at hget
      cases hget
    exact ⟨u, husers ▸ (get?_setUser_ne hkey).trans hget, rfl⟩
  | @loggedIn username password v _ hpassword husers =>
    rw [husers]
    refine password_setUser (fun u' hu' => ?_) hget
    rcases hlogin username password v rfl with ⟨u'', hu'', hsame⟩ | hempty
    · obtain rfl : u'' = u' := Option.some.inj (hu''.symm.trans hu')
      exact hsame
    · rw [hempty] at hpassword
      cases hpassword
  | @loggedOut text ctx v _ _ _ hfound _ husers =>
    rw [husers]
    refine password_setUser (fun u' hu' => ?_) hget
    obtain rfl : v = u' := Option.some.inj (hfound.symm.trans (getUser_own hu'))
    rfl

/-- Only a registration stores a record under a free name. -/
theorem UserStep.free (h : UserStep p env users task o)
    (hlogin : ∀ username password u, task = .resume (.login username password u) →
      LoginFresh users username u)
    {key : JsString} (hget : users.get? key = none)
    (hother : ∀ password, task ≠ .resume (.register key password)) :
    o.store.users.get? key = none := by
  cases h with
  | reads husers => exact husers ▸ hget
  | @registered username password _ husers =>
    have hkey : key ≠ username := fun hkey => hother password (by rw [hkey])
    exact husers ▸ (get?_setUser_ne hkey).trans hget
  | @loggedIn username password v _ hpassword husers =>
    rw [husers]
    -- a login writes back a record that it has found, or one without a password
    by_cases hkey : key = propertyKey username
    · rcases hlogin username password v rfl with ⟨u', hu', -⟩ | hempty
      · rw [← hkey, hget] at hu'
        cases hu'
      · rw [hempty] at hpassword
        cases hpassword
    · exact (get?_setUser_ne hkey).trans hget
  | @loggedOut text ctx v _ _ _ hfound _ husers =>
    rw [husers]
    by_cases hkey : key = propertyKey ctx.userCookie
    · rcases getUser_cases hfound with hown | ⟨hnone, hin, -⟩
      · rw [← hkey, hget] at hown
        cases hown
      · rw [setUser_inherited hnone hin]
        exact hget
    · exact (get?_setUser_ne hkey).trans hget

end Change

/-! ## The invariant -/

/-- Two handlers do not wait for the digest of a registration for the same name. -/
def Pending.Distinct (w w' : Pending) : Prop :=
  ∀ username password password', w.await = .register username password →
    w'.await ≠ .register username password'

theorem Pending.Distinct.symm {w w' : Pending} (h : w.Distinct w') : w'.Distinct w :=
  fun username password password' hw' hw => h username password' password hw hw'

/-- Names that are being registered are free and different, logins hold the stored
password, and every name that has been stored is there and has been stored once. -/
structure PasswordInv (s : Process) : Prop where
  free : ∀ username, s.Registering username →
    s.store.users.get? username = none ∧ username ∉ objectPrototype
  distinct : s.pending.Pairwise Pending.Distinct
  login : ∀ w ∈ s.pending, ∀ username password u, w.await = .login username password u →
    LoginFresh s.store.users username u
  stored : ∀ e ∈ s.log, ∀ username, e.StoresUser username →
    ∃ u, s.store.users.get? username = some u
  once : s.log.Pairwise fun e e' => ∀ username, e.StoresUser username → ¬e'.StoresUser username

theorem passwordInv_initial : PasswordInv Process.initial where
  free := fun _ ⟨_, hw, _⟩ => (List.not_mem_nil hw).elim
  distinct := List.Pairwise.nil
  login := fun _ hw => (List.not_mem_nil hw).elim
  stored := fun _ he => (List.not_mem_nil he).elim
  once := List.Pairwise.nil

section Step

variable {p : Platform} {s t : Process}

/-- A stretch keeps the invariant, if a registration that goes on was the only one for
its name and one that begins to wait is. -/
theorem PasswordInv.perform (h : PasswordInv s) (env : Env) (request : ℕ) (task : Task)
    (pending : List Pending) (requests : ℕ) (hpending : ∀ w ∈ pending, w ∈ s.pending)
    (hdistinct : pending.Pairwise Pending.Distinct)
    (hlogin : ∀ username password u, task = .resume (.login username password u) →
      LoginFresh s.store.users username u)
    (hregister : ∀ username password, task = .resume (.register username password) →
      s.Registering username ∧ ∀ w ∈ pending, ∀ password', w.await ≠ .register username password')
    (hstart : ∀ username password, ((task.prog p).run env s.store).result =
      some (.await (.register username password)) → ¬s.Registering username) :
    PasswordInv (s.perform p env request task pending requests) := by
  have hstep := userStep (p := p) task env s.store
  have hfree : ∀ username password, task = .resume (.register username password) →
      s.store.users.get? username = none ∧ username ∉ objectPrototype :=
    fun username password htask => h.free username (hregister username password htask).1
  have hkeeps : ∀ key u, s.store.users.get? key = some u → ∃ u',
      ((task.prog p).run env s.store).store.users.get? key = some u' ∧
        u'.password = u.password :=
    fun key u hget => hstep.password hlogin (fun _ _ htask => (hfree _ _ htask).1) hget
  refine ⟨?_, ?_, ?_, ?_, ?_⟩
  · rintro username ⟨w, hw, password, hawait⟩
    rcases List.mem_append.mp hw with hw | hw
    · -- it has waited before, and no other registration of the name goes on
      obtain ⟨hnone, hin⟩ := h.free username ⟨w, hpending w hw, password, hawait⟩
      refine ⟨hstep.free hlogin hnone fun password' htask => ?_, hin⟩
      exact (hregister username password' htask).2 w hw password hawait
    · -- it has just found its name free
      obtain ⟨hresult, -⟩ := mem_waiting.mp hw
      rw [hawait] at hresult
      obtain ⟨husers, _, ctx, -, -, hstarts⟩ := hstep.waits hresult
      obtain ⟨hnone, hin⟩ := getUser_none hstarts.free
      exact ⟨(congrArg (Dict.get? · username) husers).trans hnone, hin⟩
  · refine List.pairwise_append.mpr ⟨hdistinct, ?_, fun w hw w' hw' => ?_⟩
    · unfold Next.waiting
      split
      · exact List.pairwise_singleton ..
      · exact List.Pairwise.nil
    · intro username password password' hawait hawait'
      obtain ⟨hresult, -⟩ := mem_waiting.mp hw'
      rw [hawait'] at hresult
      exact hstart username password' hresult ⟨w, hpending w hw, password, hawait⟩
  · intro w hw username password u hawait
    rcases List.mem_append.mp hw with hw | hw
    · rcases h.login w (hpending w hw) username password u hawait with ⟨u', hget, hsame⟩ | hempty
      · obtain ⟨u'', hget', hsame'⟩ := hkeeps _ u' hget
        exact .inl ⟨u'', hget', hsame'.trans hsame⟩
      · exact .inr hempty
    · obtain ⟨hresult, -⟩ := mem_waiting.mp hw
      rw [hawait] at hresult
      obtain ⟨husers, hfound⟩ := hstep.waits hresult
      rcases getUser_cases hfound with hown | ⟨-, -, hempty⟩
      · exact .inl ⟨u, (congrArg (Dict.get? · (propertyKey username)) husers).trans hown, rfl⟩
      · exact .inr hempty
  · intro e he username hstores
    rcases List.mem_append.mp he with he | he
    · obtain ⟨u, hget⟩ := h.stored e he username hstores
      obtain ⟨u', hget', -⟩ := hkeeps username u hget
      exact ⟨u', hget'⟩
    · -- the registration has stored its record
      obtain rfl := List.mem_singleton.mp he
      obtain ⟨⟨password, htask⟩, user, hmem⟩ := hstores
      obtain rfl : task = .resume (.register username password) := htask
      obtain ⟨hnone, hin⟩ := hfree username password rfl
      cases hstep with
      | reads _ hreads => exact (hreads _ hmem trivial).elim
      | registered husers =>
        exact ⟨_, (congrArg (Dict.get? · username) husers).trans (get?_setUser_missing hnone hin)⟩
  · refine List.pairwise_append.mpr ⟨h.once, List.pairwise_singleton .., fun e he e' he' => ?_⟩
    rintro username hstores hstores'
    obtain rfl := List.mem_singleton.mp he'
    -- what an earlier registration has stored is not free
    obtain ⟨u, hget⟩ := h.stored e he username hstores
    obtain ⟨⟨password, htask⟩, -⟩ := hstores'
    rw [(hfree username password htask).1] at hget
    cases hget

/-- One orderly step keeps the invariant. -/
theorem PasswordInv.step {l : Label} (h : PasswordInv s)
    (hstep : Guarded (Orderly p) (Steps p) s l t) : PasswordInv t := by
  obtain ⟨hguard, hstep⟩ := hstep
  rcases stepCases hstep with ⟨text, env, rfl⟩ | ⟨-, env, -, waiting, pending, hperm, rfl⟩
  · refine h.perform env _ _ _ _ (fun _ hw => hw) h.distinct (fun _ _ _ htask => nomatch htask)
      (fun _ _ htask => nomatch htask) fun username password hresult => ?_
    obtain ⟨-, text', ctx, htask, hparse, hstarts⟩ :=
      (userStep (p := p) (.start text) env s.store).waits hresult
    obtain rfl := Task.start.inj htask
    exact (hguard ctx username hparse hstarts.toRegisterRequest).2.2 password hstarts
  · have hmem : waiting ∈ s.pending := hperm.mem_iff.mpr List.mem_cons_self
    have hpairwise := (hperm.pairwise_iff fun hab => hab.symm).mp h.distinct
    obtain ⟨hothers, hdistinct⟩ := List.pairwise_cons.mp hpairwise
    refine h.perform env _ _ _ _ (fun w hw => hperm.mem_iff.mpr (List.mem_cons_of_mem _ hw))
      hdistinct (fun username password u htask => ?_) (fun username password htask => ?_)
      fun username password hresult => ?_
    · exact h.login waiting hmem username password u (Task.resume.inj htask)
    · have hawait := Task.resume.inj htask
      exact ⟨⟨waiting, hmem, password, hawait⟩, fun w hw password' =>
        hothers w hw username password password' hawait⟩
    · -- only the start of a request leads to the digest
      obtain ⟨-, text, ctx, htask, -, -⟩ :=
        (userStep (p := p) (.resume waiting.await) env s.store).waits hresult
      cases htask

/-- No step changes a stored password. -/
theorem PasswordInv.keepsPasswords {l : Label} (h : PasswordInv s) (hstep : Steps p s l t) :
    KeepsPasswords s t := by
  intro key u hget
  rcases stepCases hstep with ⟨text, env, rfl⟩ | ⟨-, env, -, waiting, pending, hperm, rfl⟩
  · exact (userStep (.start text) env s.store).password (fun _ _ _ htask => nomatch htask)
      (fun _ _ htask => nomatch htask) hget
  · have hmem : waiting ∈ s.pending := hperm.mem_iff.mpr List.mem_cons_self
    refine (userStep (.resume waiting.await) env s.store).password
      (fun username password u htask => ?_) (fun username password htask => ?_) hget
    · exact h.login waiting hmem username password u (Task.resume.inj htask)
    · exact (h.free username ⟨waiting, hmem, password, Task.resume.inj htask⟩).1

end Step

/-! ## The requests for one name -/

/-- The start of a `POST /register` request for a name. -/
def Task.Registers (p : Platform) (task : Task) (username : JsString) : Prop :=
  ∃ text ctx, task = .start text ∧ parse p text = some ctx ∧ RegisterRequest ctx username

/-- The request has ended in a redirect that stores nothing. -/
def Entry.Redirects (e : Entry) : Prop :=
  e.result = some .done ∧ ∃ url headers, e.effects = redirectCalls url headers

/-- The request has gone up to the digest, without an effect. -/
def Entry.AsksDigest (e : Entry) (username : JsString) : Prop :=
  e.effects = [] ∧ ∃ password, e.result = some (.await (.register username password))

/-- `register` redirects or goes up to its digest. -/
theorem RegisterRequest.run {ctx : HTTPContext} {username : JsString}
    (h : RegisterRequest ctx username) {s : Store}
    (hpassword : getUser s.users ctx.userCookie = none →
      3 ≤ username.length ∧ username.length ≤ 32 → (field ctx.form (js "password")).isSome)
    (p : Platform) (router : Router) (env : Env) :
    (∃ url headers, (register p router ctx).run env s =
      { store := s, effects := redirectCalls url headers, result := some .done }) ∨
    ∃ password, (register p router ctx).run env s =
      { store := s, effects := [], result := some (.await (.register username password)) } := by
  have hget : ¬js "POST" = js "GET" := by decide
  simp only [register, Prog.run_bind, run_userGet, Outcome.after_nil]
  cases hcookie : getUser s.users ctx.userCookie with
  | some u => exact .inl ⟨_, _, rfl⟩
  | none =>
    simp only [Option.isSome_none, Bool.false_eq_true, if_false, h.method, if_neg hget, if_true,
      h.usernameField, Prog.run_bind, run_require_some, Outcome.after_nil]
    by_cases hlength : username.length < 3 ∨ username.length > 32
    · rw [if_pos hlength]
      exact .inl ⟨_, _, rfl⟩
    rw [if_neg hlength]
    obtain ⟨password, hfield⟩ := Option.isSome_iff_exists.mp (hpassword hcookie (by omega))
    simp only [hfield, Prog.run_bind, run_require_some, Outcome.after_nil]
    split
    · exact .inl ⟨_, _, rfl⟩
    split
    · exact .inl ⟨_, _, rfl⟩
    simp only [Prog.run_bind, run_userGet, Outcome.after_nil]
    split
    · exact .inl ⟨_, _, rfl⟩
    · exact .inr ⟨password, rfl⟩

/-- A request for a name has redirected, or has gone up to its digest and still waits for
it or has stored the name; and there are not two of the second kind. -/
structure RegistrationInv (p : Platform) (s : Process) : Prop where
  claimed : ∀ e ∈ s.log, ∀ username, e.task.Registers p username →
    e.Redirects ∨ (e.AsksDigest username ∧
      (s.Registering username ∨ ∃ u, s.store.users.get? username = some u))
  single : s.log.Pairwise fun e e' => ∀ username, e.task.Registers p username →
    e'.task.Registers p username → e.Redirects ∨ e'.Redirects

theorem registrationInv_initial {p : Platform} : RegistrationInv p Process.initial where
  claimed := fun _ he => (List.not_mem_nil he).elim
  single := List.Pairwise.nil

section Requests

variable {p : Platform} {s t : Process}

/-- A name that waits for its digest still waits after a step, or is stored. -/
theorem PasswordInv.stays {l : Label} (h : PasswordInv s) (hstep : Steps p s l t)
    {username : JsString}
    (hclaim : s.Registering username ∨ ∃ u, s.store.users.get? username = some u) :
    t.Registering username ∨ ∃ u, t.store.users.get? username = some u := by
  rcases hclaim with ⟨w, hw, password, hawait⟩ | ⟨u, hget⟩
  · rcases stepCases hstep with ⟨text, env, rfl⟩ | ⟨-, env, -, waiting, pending, hperm, rfl⟩
    · exact .inl ⟨w, List.mem_append_left _ hw, password, hawait⟩
    · rcases List.mem_cons.mp (hperm.mem_iff.mp hw) with rfl | hw'
      · -- it goes on and stores its record
        obtain ⟨hnone, hin⟩ := h.free username ⟨w, hw, password, hawait⟩
        have husers : ((w.await.resume p).run env s.store).store.users =
            setUser s.store.users (some username) { id := some (some username)
                                                    password := some (some (passwordHash p password)) } := by
          rw [hawait]
          rfl
        exact .inr ⟨_, (congrArg (Dict.get? · username) husers).trans
          (get?_setUser_missing hnone hin)⟩
      · exact .inl ⟨w, List.mem_append_left _ hw', password, hawait⟩
  · obtain ⟨u', hget', -⟩ := h.keepsPasswords hstep username u hget
    exact .inr ⟨u', hget'⟩

/-- A new entry in the log that is the start of a registration, in an orderly step. -/
theorem Orderly.start {text : JsString} {env : Env} (hguard : Orderly p s (.request text env))
    {username : JsString} (hregisters : (Task.start text).Registers p username) (e : Entry)
    (heffects : e.effects = ((handle p text).run env s.store).effects)
    (hresult : e.result = ((handle p text).run env s.store).result) :
    e.Redirects ∨ (e.AsksDigest username ∧ ¬s.Registering username ∧
      s.store.users.get? username = none) := by
  obtain ⟨text', ctx, htask, hparse, hrequest⟩ := hregisters
  obtain rfl := Task.start.inj htask
  obtain ⟨hrouter, hpassword, hfirst⟩ := hguard ctx username hparse hrequest
  obtain ⟨router, hrouter⟩ := Option.isSome_iff_exists.mp hrouter
  have hhandle : (handle p text).run env s.store = (register p router ctx).run env s.store := by
    simp only [handle, hparse, hrouter, Prog.run_bind, run_require_some, Outcome.after_nil,
      Router.handle, makeRouter_overrides hrouter, hrequest.path]
    rfl
  rcases hrequest.run hpassword p router env with ⟨url, headers, hrun⟩ | ⟨password, hrun⟩
  · rw [hhandle, hrun] at heffects hresult
    exact .inl ⟨hresult, url, headers, heffects⟩
  · have hwaits := (userStep (p := p) (.start text) env s.store).waits
      (a := .register username password) (by rw [Task.prog, hhandle, hrun])
    obtain ⟨-, text', ctx', htask, hparse', hstarts⟩ := hwaits
    obtain rfl := Task.start.inj htask
    obtain rfl : ctx = ctx' := Option.some.inj (hparse.symm.trans hparse')
    rw [hhandle, hrun] at heffects hresult
    exact .inr ⟨⟨heffects, password, hresult⟩, hfirst password hstarts,
      (getUser_none hstarts.free).1⟩

/-- One orderly step keeps the invariant. -/
theorem RegistrationInv.step {l : Label} (h : RegistrationInv p s) (hinv : PasswordInv s)
    (hstep : Guarded (Orderly p) (Steps p) s l t) : RegistrationInv p t := by
  obtain ⟨hguard, hstep⟩ := hstep
  have hclaimed : ∀ e ∈ s.log, ∀ username, e.task.Registers p username →
      e.Redirects ∨ (e.AsksDigest username ∧
        (t.Registering username ∨ ∃ u, t.store.users.get? username = some u)) :=
    fun e he username hregisters => (h.claimed e he username hregisters).imp_right
      fun ⟨hasks, hclaim⟩ => ⟨hasks, hinv.stays hstep hclaim⟩
  rcases stepCases hstep with ⟨text, env, rfl⟩ | ⟨-, env, -, waiting, pending, hperm, rfl⟩
  · have hstart := fun (username : JsString) (hregisters : (Task.start text).Registers p username) =>
      hguard.start hregisters
        { request := s.requests, task := .start text
          effects := ((handle p text).run env s.store).effects
          result := ((handle p text).run env s.store).result } rfl rfl
    constructor
    · intro e he username hregisters
      rcases List.mem_append.mp he with he | he
      · exact hclaimed e he username hregisters
      · obtain rfl := List.mem_singleton.mp he
        refine (hstart username hregisters).imp_right fun ⟨hasks, _⟩ => ⟨hasks, .inl ?_⟩
        obtain ⟨-, password, hresult⟩ := hasks
        exact ⟨{ request := s.requests, await := .register username password },
          List.mem_append_right _ (mem_waiting.mpr ⟨hresult, rfl⟩), password, rfl⟩
    · refine List.pairwise_append.mpr ⟨h.single, List.pairwise_singleton .., ?_⟩
      intro e he e' he' username hregisters hregisters'
      obtain rfl := List.mem_singleton.mp he'
      rcases h.claimed e he username hregisters with hredirects | ⟨-, hclaim⟩
      · exact .inl hredirects
      rcases hstart username hregisters' with hredirects | ⟨-, hfirst, hnone⟩
      · exact .inr hredirects
      · -- the earlier request has the name, so the later one cannot ask for a digest
        rcases hclaim with hregistering | ⟨u, hget⟩
        · exact absurd hregistering hfirst
        · rw [hnone] at hget
          cases hget
  · have hresume : ∀ username, ¬(Task.resume waiting.await).Registers p username :=
      fun username ⟨_, _, htask, _⟩ => nomatch htask
    constructor
    · intro e he username hregisters
      rcases List.mem_append.mp he with he | he
      · exact hclaimed e he username hregisters
      · obtain rfl := List.mem_singleton.mp he
        exact absurd hregisters (hresume username)
    · refine List.pairwise_append.mpr ⟨h.single, List.pairwise_singleton .., ?_⟩
      intro e he e' he' username hregisters hregisters'
      obtain rfl := List.mem_singleton.mp he'
      exact absurd hregisters' (hresume username)

end Requests

/-! ## Write-once passwords -/

/-- Passwords are write-once between two states of a run: stored records keep theirs, at
most one registration has stored a record for a name, and of any two `POST /register`
requests for a name one has ended in a redirect that stores nothing. The other one has at
least stored nothing before its digest. -/
structure WriteOnce (p : Platform) (s t : Process) : Prop where
  keeps : KeepsPasswords s t
  once : t.log.Pairwise fun e e' => ∀ username, e.StoresUser username → ¬e'.StoresUser username
  single : t.log.Pairwise fun e e' => ∀ username, e.task.Registers p username →
    e'.task.Registers p username → e.Redirects ∨ e'.Redirects
  ends : ∀ e ∈ t.log, ∀ username, e.task.Registers p username →
    e.Redirects ∨ e.AsksDigest username

/-- **Passwords are write-once** in every run in which no registration overtakes another
one for the same name. -/
theorem password_writeOnce {p : Platform} {ls ms : List Label} {s t : Process}
    (hrun : Run (Guarded (Orderly p) (Steps p)) Process.initial ls s)
    (hlater : Run (Guarded (Orderly p) (Steps p)) s ms t) : WriteOnce p s t := by
  have hstep : ∀ s l t, PasswordInv s ∧ RegistrationInv p s →
      Guarded (Orderly p) (Steps p) s l t → PasswordInv t ∧ RegistrationInv p t :=
    fun _ _ _ ⟨h, h'⟩ hstep => ⟨h.step hstep, h'.step h hstep⟩
  have hinv : PasswordInv s ∧ RegistrationInv p s := by
    apply Run.invariant _ hstep hrun
    exact ⟨passwordInv_initial, registrationInv_initial⟩
  have hkeeps : (PasswordInv t ∧ RegistrationInv p t) ∧ KeepsPasswords s t :=
    hlater.preserves KeepsPasswords.refl (fun _ _ _ => KeepsPasswords.trans) hinv
      fun s l t h hstep' => ⟨hstep s l t h hstep', h.1.keepsPasswords hstep'.2⟩
  obtain ⟨⟨h, h'⟩, hkeeps⟩ := hkeeps
  exact
    { keeps := hkeeps
      once := h.once
      single := h'.single
      ends := fun e he username hregisters => (h'.claimed e he username hregisters).imp_right
        And.left }

/-- Somebody else registers as Alice. -/
def aliceAgain : Label :=
  .request (sampleRequest "POST" "/register" [] (aliceForm "password2")) sampleEnv

/-- A registration for Alice's name after hers changes nothing. -/
theorem password_writeOnce_alice :
    WriteOnce samplePlatform aliceRegistered
      ((aliceRegistered.step samplePlatform aliceAgain).get rfl) := by
  have hrouter : (makeRouter samplePlatform).isSome := by decide +kernel
  have hfirst : Orderly samplePlatform Process.initial
      (.request (sampleRequest "POST" "/register" [] (aliceForm "password1"))
        sampleEnv) := by
    intro ctx username hparse _
    have hpassword : (parse samplePlatform
        (sampleRequest "POST" "/register" [] (aliceForm "password1"))).map
        (fun ctx => (field ctx.form (js "password")).isSome) = some true := by decide +kernel
    rw [hparse] at hpassword
    exact ⟨hrouter, fun _ _ => Option.some.inj hpassword,
      fun _ _ ⟨_, hw, _⟩ => (List.not_mem_nil hw).elim⟩
  have hagain : Orderly samplePlatform aliceRegistered aliceAgain := by
    intro ctx username hparse _
    have hpassword : (parse samplePlatform
        (sampleRequest "POST" "/register" [] (aliceForm "password2"))).map
        (fun ctx => (field ctx.form (js "password")).isSome) = some true := by decide +kernel
    have hidle : aliceRegistered.pending.length = 0 := by decide +kernel
    rw [hparse] at hpassword
    refine ⟨hrouter, fun _ _ => Option.some.inj hpassword, fun _ _ ⟨w, hw, _⟩ => ?_⟩
    rw [List.eq_nil_of_length_eq_zero hidle] at hw
    exact List.not_mem_nil hw
  have hreaches : aliceRegisters.foldlM (Process.step samplePlatform) Process.initial =
      some aliceRegistered := (Option.some_get _).symm
  simp only [aliceRegisters, List.foldlM_cons, List.foldlM_nil, bind_pure] at hreaches
  have hresume : ∀ s, Orderly samplePlatform s (.resume 0 sampleEnv false) := fun _ => trivial
  obtain ⟨waiting, hstart, hstore⟩ := Option.bind_eq_some_iff.mp hreaches
  exact password_writeOnce ((Run.nil.snoc ⟨hfirst, hstart⟩).snoc ⟨hresume waiting, hstore⟩)
    (Run.single ⟨hagain, (Option.some_get _).symm⟩)

/-- Two registrations for Alice's name that wait for their digests at the same time, and
the first one's record is stored. -/
def aliceOvertaken : List Label :=
  [.request (sampleRequest "POST" "/register" [] (aliceForm "password1")) sampleEnv,
    aliceAgain, .resume 0 sampleEnv false]

/-- The second registration overwrites the password that the first one has stored. -/
theorem not_password_writeOnce_alice :
    ¬∀ (p : Platform) (ls ms : List Label) (s t : Process), Reaches p ls s →
      Run (Steps p) s ms t → WriteOnce p s t := by
  intro hwriteOnce
  have hrun : ((aliceOvertaken.foldlM (Process.step samplePlatform) Process.initial).bind
      fun s => (s.step samplePlatform (.resume 0 sampleEnv false)).map fun t =>
        ((s.store.users.get? (js "alice")).map UserData.password,
          (t.store.users.get? (js "alice")).map UserData.password)) =
      some (some (some (passwordHash samplePlatform (js "password1"))),
        some (some (passwordHash samplePlatform (js "password2")))) := by decide +kernel
  obtain ⟨s, hs, hrun⟩ := Option.bind_eq_some_iff.mp hrun
  obtain ⟨t, ht, hfields⟩ := Option.map_eq_some_iff.mp hrun
  simp only [Prod.mk.injEq, Option.map_eq_some_iff] at hfields
  obtain ⟨⟨u, hu, hold⟩, u', hu', hnew⟩ := hfields
  obtain ⟨v, hv, hsame⟩ :=
    (hwriteOnce _ _ _ s t (reaches_sample hs) (Run.single ht)).keeps (js "alice") u hu
  obtain rfl : u' = v := Option.some.inj (hu'.symm.trans hv)
  rw [hold, hnew] at hsame
  exact absurd hsame (by decide +kernel)

end NetworkServers.Phase2
