import NetworkServers.Phase2.Interference
import NetworkServers.Phase2.Server

/-!
# What a Stretch Does to the User Table

Most stretches of the handlers only read the user table. The others are the rest of
`register`, the rest of `login` with the right password, and `logout` with the right
token. `userStep` says once what each of them does and which handlers it leaves waiting;
every invariant about users and sessions is derived from it.
-/

namespace NetworkServers.Phase2

open NetworkServers.Js NetworkServers.Runs
open Prog (require)

/-! ## Stretches that only read -/

/-- Effects on the user table, and the random numbers drawn for it. -/
def Effect.OnUsers : Effect → Prop
  | .setUser _ _ | .randomUUID _ => True
  | _ => False

/-- On the given user table, a stretch reads only, and what it ends with satisfies `Q`. -/
def Prog.Reads {α : Type} (users : UserTable) (Q : α → Prop) : Prog α → Prop
  | .pure a => Q a
  | .throw => True
  | .getUser id k => (k (Phase2.getUser users id)).Reads users Q
  | .setUser _ _ _ => False
  | .getChat k => ∀ chats, (k chats).Reads users Q
  | .addChat _ k => k.Reads users Q
  | .randomUUID _ => False
  | .now k => ∀ time, (k time).Reads users Q
  | .call _ k => k.Reads users Q
  | .startGpt k => k.Reads users Q

/-- Nothing comes between the operations of the stretch, and it may only read. -/
def readOnly (users : UserTable) : Rules where
  found := fun id u => u = Phase2.getUser users id
  stored := fun _ _ => False
  added := fun _ => True
  drawn := False

section Reads

variable {α : Type} {users : UserTable} {Q : α → Prop}

/-- Reading only is keeping to rules. -/
theorem Prog.Reads.of_obeys {prog : Prog α} (h : prog.Obeys (readOnly users) Q) :
    prog.Reads users Q := by
  induction prog with
  | pure a => exact h
  | throw => trivial
  | getUser id k ih => exact ih _ (h _ rfl)
  | setUser id user k ih => exact h.1.elim
  | randomUUID k ih => exact h.1.elim
  | getChat k ih => exact fun chats => ih chats (h chats)
  | now k ih => exact fun time => ih time (h time)
  | addChat chat k ih => exact ih h.2
  | call c k ih | startGpt k ih => exact ih h

/-- What holds of a stretch that reads only, when it runs. -/
theorem Prog.Reads.run {prog : Prog α} {s : Store} (h : prog.Reads s.users Q) (env : Env) :
    (prog.run env s).store.users = s.users ∧
      (∀ e ∈ (prog.run env s).effects, ¬e.OnUsers) ∧
      ∀ a, (prog.run env s).result = some a → Q a := by
  induction prog generalizing s with
  | pure a => exact ⟨rfl, fun e he => (List.not_mem_nil he).elim, fun b hb => Option.some.inj hb ▸ h⟩
  | throw => exact ⟨rfl, fun e he => (List.not_mem_nil he).elim, fun b hb => nomatch hb⟩
  | getUser id k ih => exact ih _ h
  | setUser id user k ih => exact h.elim
  | randomUUID k ih => exact h.elim
  | getChat k ih => exact ih _ (h _)
  | now k ih => exact ih _ (h _)
  | addChat chat k ih =>
    obtain ⟨husers, heffects, hresult⟩ := ih (s := { s with chats := Phase2.addChat s.chats chat }) h
    exact ⟨husers, List.forall_mem_cons.mpr ⟨id, heffects⟩, hresult⟩
  | call c k ih | startGpt k ih =>
    obtain ⟨husers, heffects, hresult⟩ := ih h
    exact ⟨husers, List.forall_mem_cons.mpr ⟨id, heffects⟩, hresult⟩

end Reads

/-- A `POST /register` request for a name. -/
structure RegisterRequest (ctx : HTTPContext) (username : JsString) : Prop where
  path : ctx.path.pathname = js "/register"
  method : ctx.method = js "POST"
  usernameField : field ctx.form (js "username") = some username

/-- The request passes all checks of `register` and gets to the digest. -/
structure StartsRegistration (users : UserTable) (ctx : HTTPContext)
    (username password : JsString) : Prop extends RegisterRequest ctx username where
  loggedOut : getUser users ctx.userCookie = none
  usernameLength : 3 ≤ username.length ∧ username.length ≤ 32
  passwordField : field ctx.form (js "password") = some password
  passwordLength : 8 ≤ password.length ∧ password.length ≤ 64
  notGpt : username ≠ js "GPT"
  free : getUser users (some username) = none

/-! ## The routes -/

/-- The routes that `handle` sets up. -/
theorem makeRouter_overrides {p : Platform} {router : Router} (h : makeRouter p = some router)
    (path : JsString) : router.overrides.get? path =
      if path = js "/chat-status" then some .chatStatus
      else if path = js "/chat" then some .chatroom
      else if path = js "/logout" then some .logout
      else if path = js "/login" then some .login
      else if path = js "/register" then some .register
      else if path = js "/compute-sqrt-1e8-times" then some .computeSqrt
      else if path = js "/reflect" then some .reflect
      else none := by
  obtain ⟨served, hserve, h⟩ := Option.bind_eq_some_iff.mp h
  obtain rfl := Option.some.inj h
  have hempty : served.overrides = Dict.empty := by
    unfold Router.serve at hserve
    split at hserve
    · obtain rfl := Option.some.inj hserve
      rfl
    · cases hserve
  simp only [Router.override, Router.alias, Dict.get?_set, hempty, Dict.get?_empty]

/-! ## What a stretch does -/

/-- What may be known about a handler that a stretch leaves waiting. -/
def Next.WaitsFor (p : Platform) (users : UserTable) (task : Task) : Next → Prop
  | .await (.register username password) => ∃ text ctx, task = .start text ∧
      parse p text = some ctx ∧ StartsRegistration users ctx username password
  | .await (.login username _ u) => getUser users username = some u
  | _ => True

/-- What a stretch does to the user table, told apart by the handler. -/
inductive UserStep (p : Platform) (env : Env) (users : UserTable) :
    Task → Outcome Next → Prop where
  /-- Nothing. -/
  | reads {task : Task} {o : Outcome Next} (husers : o.store.users = users)
      (heffects : ∀ e ∈ o.effects, ¬e.OnUsers)
      (hnext : ∀ next, o.result = some next → next.WaitsFor p users task) :
      UserStep p env users task o
  /-- `register` stores a record. -/
  | registered {username password : JsString} {o : Outcome Next}
      (husers : o.store.users = setUser users (some username)
        { id := some (some username), password := some (some (passwordHash p password)) })
      (heffects : o.effects = .setUser (some username)
        { id := some (some username), password := some (some (passwordHash p password)) } ::
          redirectCalls (js "/login"))
      (hdone : o.result = some .done) :
      UserStep p env users (.resume (.register username password)) o
  /-- `login` stores a token in the record that it has found. -/
  | loggedIn {username : Option JsString} {password : JsString} {u : UserData}
      {o : Outcome Next} (hpassword : u.password = some (passwordHash p password))
      (husers : o.store.users = setUser users username
        { u.spread with token := some (some (tokenOf env.uuid)) })
      (heffects : o.effects = .randomUUID env.uuid :: .setUser username
        { u.spread with token := some (some (tokenOf env.uuid)) } ::
          redirectCalls (js "/chat") (sessionCookies username (tokenOf env.uuid)))
      (hdone : o.result = some .done) :
      UserStep p env users (.resume (.login username password u)) o
  /-- `logout` takes the token out of the record. -/
  | loggedOut {text : JsString} {ctx : HTTPContext} {u : UserData} {o : Outcome Next}
      (hparse : parse p text = some ctx) (hpath : ctx.path.pathname = js "/logout")
      (hfound : getUser users ctx.userCookie = some u) (htoken : ctx.tokenCookie = u.token)
      (husers : o.store.users = setUser users ctx.userCookie
        { u.spread with token := some none })
      (heffects : o.effects = .setUser ctx.userCookie { u.spread with token := some none } ::
        redirectCalls (js "/login") clearCookies)
      (hdone : o.result = some .done) :
      UserStep p env users (.start text) o

section UserStep

variable {p : Platform} {env : Env} {s : Store}

theorem UserStep.of_obeys {task : Task} {prog : Prog Next}
    (h : prog.Obeys (readOnly s.users) (Next.WaitsFor p s.users task)) :
    UserStep p env s.users task (prog.run env s) := by
  obtain ⟨husers, heffects, hnext⟩ := (Prog.Reads.of_obeys h).run env
  exact .reads husers heffects hnext

/-- `logout`, found or not. -/
theorem userStep_logout {text : JsString} {ctx : HTTPContext} (hparse : parse p text = some ctx)
    (hpath : ctx.path.pathname = js "/logout") :
    UserStep p env s.users (.start text) ((logout ctx).run env s) := by
  by_cases hwrites : ∃ u, getUser s.users ctx.userCookie = some u ∧ ctx.tokenCookie = u.token
  · obtain ⟨u, hu, htoken⟩ := hwrites
    refine .loggedOut hparse hpath hu htoken ?_ ?_ ?_
    all_goals
      simp only [logout, Prog.run_bind, run_userGet, hu, if_pos htoken, run_userSet,
        run_redirect]
      rfl
  · apply UserStep.of_obeys
    apply logout_obeys trivial
    intro u hu htoken
    exact hwrites ⟨u, hu.symm, htoken⟩

/-- The start of a request. -/
theorem userStep_handle (text : JsString) :
    UserStep p env s.users (.start text) ((handle p text).run env s) := by
  unfold handle
  cases hparse : parse p text with
  | none => exact UserStep.of_obeys (by simp)
  | some ctx =>
    cases hrouter : makeRouter p with
    | none => exact UserStep.of_obeys (by simp)
    | some router =>
      simp only [Prog.run_bind, run_require_some, Outcome.after_nil, Router.handle,
        makeRouter_overrides hrouter]
      -- one case for each route
      split
      · rename_i route hroute
        split at hroute
        · obtain rfl := Option.some.inj hroute
          exact UserStep.of_obeys (withSession_obeys trivial fun u _ _ =>
            serveChatStatus_obeys u trivial fun _ => trivial)
        split at hroute
        · obtain rfl := Option.some.inj hroute
          exact UserStep.of_obeys (withSession_obeys trivial fun u _ _ =>
            serveChat_obeys u trivial fun _ _ _ => trivial)
        split at hroute
        · obtain rfl := Option.some.inj hroute
          exact userStep_logout hparse ‹_›
        split at hroute
        · obtain rfl := Option.some.inj hroute
          exact UserStep.of_obeys (login_obeys trivial (fun _ => trivial) fun _ _ _ hu => hu.symm)
        split at hroute
        · rename_i hpath
          obtain rfl := Option.some.inj hroute
          apply UserStep.of_obeys
          apply register_obeys trivial (fun _ => trivial)
          intro username password hloggedOut hpost husername hlength hpassword hlength' hgpt hfree
          exact ⟨text, ctx, rfl, hparse,
            { path := hpath, method := hpost, usernameField := husername
              loggedOut := hloggedOut.symm
              usernameLength := hlength
              passwordField := hpassword
              passwordLength := hlength'
              notGpt := hgpt
              free := hfree.symm }⟩
        split at hroute
        · obtain rfl := Option.some.inj hroute
          exact UserStep.of_obeys (computeSqrt_obeys trivial)
        split at hroute
        · obtain rfl := Option.some.inj hroute
          exact UserStep.of_obeys (reflect_obeys trivial)
        · cases hroute
      · exact UserStep.of_obeys (serveStatic_obeys _ trivial fun _ => trivial)

/-- The rest of a handler. -/
theorem userStep_resume (a : Await) :
    UserStep p env s.users (.resume a) ((a.resume p).run env s) := by
  cases a with
  | register username password =>
    refine .registered ?_ ?_ ?_ <;>
      simp [Await.resume, registerDigest, Prog.run_bind, Outcome.after]
  | login username password u =>
    by_cases hpassword : u.password = some (passwordHash p password)
    · refine .loggedIn hpassword ?_ ?_ ?_
      all_goals
        simp only [Await.resume, loginDigest, ne_eq, hpassword, not_true_eq_false, if_false,
          Prog.run_bind, run_randomUUID, run_userSet, run_redirect]
        rfl
    · apply UserStep.of_obeys
      simp only [Await.resume, loginDigest, ne_eq, if_pos hpassword, obeys_redirect]
      trivial
  | stream chunks => exact UserStep.of_obeys (streamNext_obeys _ trivial fun _ => trivial)
  | changed size => exact UserStep.of_obeys (changedNext_obeys _ trivial)

/-- **What a stretch does**: one of the four cases. -/
theorem userStep (task : Task) (env : Env) (s : Store) :
    UserStep p env s.users task ((task.prog p).run env s) := by
  cases task with
  | start text => exact userStep_handle text
  | resume a => exact userStep_resume a

end UserStep

/-! ## What a step does -/

section Step

variable {p : Platform} {env : Env} {users : UserTable} {o : Outcome Next} {task : Task}

/-- A stretch after which the handler waits has only read. -/
theorem UserStep.waits (h : UserStep p env users task o) {a : Await}
    (hresult : o.result = some (.await a)) :
    o.store.users = users ∧ (Next.await a).WaitsFor p users task := by
  cases h with
  | reads husers _ hnext => exact ⟨husers, hnext _ hresult⟩
  | registered _ _ hdone | loggedIn _ _ _ hdone | loggedOut _ _ _ _ _ _ hdone =>
    rw [hresult] at hdone
    cases hdone

theorem mem_waiting {request : ℕ} {result : Option Next} {w : Pending} :
    w ∈ Next.waiting request result ↔ result = some (.await w.await) ∧ w.request = request := by
  cases w with
  | mk number a =>
    unfold Next.waiting
    split
    · simp [eq_comm, and_comm]
    · rename_i hother
      exact iff_of_false List.not_mem_nil fun h => hother _ h.1

/-- The two kinds of steps of a process. -/
inductive StepCases (p : Platform) (s t : Process) : Label → Prop where
  | start (text : JsString) (env : Env)
      (h : t = s.perform p env s.requests (.start text) s.pending (s.requests + 1)) :
      StepCases p s t (.request text env)
  | resume (index : ℕ) (env : Env) (timeout : Bool) (waiting : Pending) (pending : List Pending)
      (hperm : s.pending.Perm (waiting :: pending))
      (h : t = s.perform p env waiting.request (.resume waiting.await) pending s.requests) :
      StepCases p s t (.resume index env timeout)

theorem stepCases {s t : Process} {l : Label} (h : Steps p s l t) : StepCases p s t l := by
  cases l with
  | request text env => exact .start text env (Option.some.inj h).symm
  | resume index env timeout =>
    obtain ⟨waiting, hwaiting, ht⟩ := h.resume
    obtain ⟨hindex, rfl⟩ := List.getElem?_eq_some_iff.mp hwaiting
    exact .resume index env timeout _ _ (List.getElem_cons_eraseIdx_perm hindex).symm ht

end Step

end NetworkServers.Phase2
