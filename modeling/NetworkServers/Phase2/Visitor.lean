import NetworkServers.Phase2.Accounts

/-!
# A Visitor Among Others

A visitor sends the form to `/register`, and once it is sent on to `/login` the same form to
`/login`; once it is sent on to `/chat` it keeps the cookies that it was given and posts messages
with them. It goes by what it is answered. Between its requests, and while its own handlers wait
for their digests, the process may do anything for anybody else, until a handler throws and ends
it. As long as nobody else writes the record under its name, the visitor is never refused, and what
it posts is stored as it was typed.
-/

namespace NetworkServers.Phase2

open NetworkServers.Js NetworkServers.Runs

/-! ## The visitor -/

/-- The two forms, in the order in which they are sent. -/
inductive Form where
  | register
  | login
deriving DecidableEq

def Form.path : Form → JsString
  | .register => js "/register"
  | .login => js "/login"

theorem Form.path_mem (form : Form) : form.path ∈ sessionPaths := by
  cases form <;> decide

/-- How far a visitor has got. -/
inductive Visitor where
  /-- The form comes next. -/
  | entering (form : Form)
  /-- The form is sent and not answered. -/
  | waiting (form : Form) (request : ℕ)
  /-- The visitor has a session, with these cookies. -/
  | chatting (jar : CookieJar)
  /-- The visitor has been answered with something else. -/
  | refused

/-- The visitor is sent to the chat, with the cookies of the answer. -/
def Visitor.sent (jar : CookieJar) (calls : List Call) : Visitor :=
  match redirectOf calls with
  | some (location, headers) =>
    if location = js "/chat" then
      .chatting ((headerValues (js "set-cookie") headers).foldl CookieJar.set jar)
    else .refused
  | none => .refused

/-- The visitor gets an answer to its form. -/
def Form.answered (jar : CookieJar) (calls : List Call) : Form → Visitor
  | .register =>
    if (redirectOf calls).map Prod.fst = some (js "/login") then .entering .login else .refused
  | .login => Visitor.sent jar calls

/-- What the visitor sees of a stretch for its form. -/
def Form.seen (jar : CookieJar) (form : Form) (e : Entry) : Visitor :=
  match e.result with
  | some (.await _) => .waiting form e.request
  | _ => form.answered jar (callsOf e.effects)

/-- A process, a visitor, and the records that the visitor means to have posted. -/
structure Visited where
  process : Process
  visitor : Visitor
  posts : List ChatData

inductive VisitedLabel where
  /-- The process does something that is not for the visitor. -/
  | other (event : ChatEvent)
  /-- The visitor sends its form. -/
  | submit (env : Env)
  /-- The handler of its form goes on. -/
  | resume (index : ℕ) (env : Env)
  /-- The visitor posts a message. -/
  | post (message : String) (env : Env)

section System

variable {p : Platform} (site : Site p) (a : Account) (jar : CookieJar)

/-- The form, with the cookies that the visitor has come with. -/
def Form.text (form : Form) : JsString := (site.postRequest form.path_mem jar a.form).text

theorem chat_mem : js "/chat" ∈ sessionPaths := by decide

/-- A message, with the cookies of the session. -/
def postText (message : String) : JsString :=
  (site.postRequest chat_mem jar (js "message=" ++ formEncode message)).text

/-- The record of a message. -/
def Account.record (message : String) (env : Env) : ChatData :=
  { user := some a.name, message := (utf16 message).take 1024, timestamp := env.now }

/-- What the process and the visitor do in a worker that lives. -/
def Visited.act (s : Visited) : VisitedLabel → Option Visited
  | .other event => do
    let process ← s.process.chatStep p event
    return { s with process := process }
  | .submit env =>
    match s.visitor with
    | .entering form => do
      let process ← s.process.step p (.request (form.text site a jar) env)
      let e ← process.log.getLast?
      return { s with process := process, visitor := form.seen jar e }
    | _ => none
  | .resume index env =>
    match s.visitor with
    | .waiting form request =>
      if (s.process.pending[index]?).map Pending.request = some request then do
        let process ← s.process.step p (.resume index env false)
        let e ← process.log.getLast?
        return { s with process := process, visitor := form.seen jar e }
      else none
    | _ => none
  | .post message env =>
    match s.visitor with
    | .chatting own => do
      let process ← s.process.step p (.request (postText site own message) env)
      let e ← process.log.getLast?
      return { process := process
               visitor := Visitor.sent own (callsOf e.effects)
               posts := s.posts ++ [a.record message env] }
    | _ => none

/-- One step of the process and the visitor. A handler that has thrown has ended the worker. -/
def Visited.step (s : Visited) (l : VisitedLabel) : Option Visited :=
  if s.process.threw then none else s.act site a jar l

/-- The steps as a relation. -/
def VisitedSteps (s : Visited) (l : VisitedLabel) (t : Visited) : Prop :=
  s.step site a jar l = some t

/-- A visitor that comes to a process. -/
def Visited.arrival (s : Process) : Visited :=
  { process := s, visitor := .entering .register, posts := [] }

end System

/-- Effects on the record under a name. -/
def Effect.Writes (name : JsString) : Effect → Prop
  | .setUser key _ => propertyKey key = name
  | _ => False

/-- Nobody else writes the record under the name of the visitor, and the cookies that it has come
with are not those of a known user when it sends its forms. -/
def Visited.Undisturbed (p : Platform) (a : Account) (jar : CookieJar) (s : Visited) : VisitedLabel → Prop
  | .other event => ∀ t, s.process.chatStep p event = some t →
      ∀ e ∈ t.log.drop s.process.log.length, ∀ effect ∈ e.effects, ¬effect.Writes a.name
  | .submit _ => jar.Unknown s.process.store.users
  | _ => True

instance (name : JsString) : DecidablePred (Effect.Writes name)
  | .setUser key _ => inferInstanceAs (Decidable (propertyKey key = name))
  | .call _ | .addChat _ | .randomUUID _ | .startGpt => isFalse id

/-- A context with the cookies. -/
def CookieJar.context (jar : CookieJar) : HTTPContext where
  method := []
  path := { pathname := [] }
  headers := match jar.received with
    | some values => Dict.empty.set (js "cookie") values
    | none => Dict.empty
  body := []

theorem CookieJar.context_cookie (jar : CookieJar) :
    jar.context.headers.get? (js "cookie") = jar.received := by
  unfold CookieJar.context
  cases jar.received with
  | none => rfl
  | some values => exact Dict.get?_set_self _ _ _

instance (jar : CookieJar) (users : UserTable) : Decidable (jar.Unknown users) :=
  decidable_of_iff (getUser users jar.context.userCookie = none)
    ⟨CookieJar.unknown_of_getUser jar.context_cookie, fun h => h _ jar.context_cookie⟩

instance (p : Platform) (a : Account) (jar : CookieJar) (s : Visited) (l : VisitedLabel) :
    Decidable (Visited.Undisturbed p a jar s l) :=
  match l with
  | .other event =>
    match h : s.process.chatStep p event with
    | none => isTrue fun _ ht => nomatch h.symm.trans ht
    | some t =>
      decidable_of_iff (∀ e ∈ t.log.drop s.process.log.length, ∀ effect ∈ e.effects,
          ¬effect.Writes a.name)
        ⟨fun hall _ ht => Option.some.inj (h.symm.trans ht) ▸ hall, fun hall => hall t h⟩
  | .submit _ => inferInstanceAs (Decidable (jar.Unknown _))
  | .resume _ _ | .post _ _ => isTrue trivial

/-! ## What others leave alone -/

section Others

variable {p : Platform} {s t : Process} {name : JsString}

/-- The new entry of the log. -/
def stretchEntry (p : Platform) (env : Env) (request : ℕ) (task : Task) (store : Store) : Entry where
  request := request
  task := task
  effects := ((task.prog p).run env store).effects
  result := ((task.prog p).run env store).result

theorem drop_log_perform {env : Env} {request : ℕ} {task : Task} {pending : List Pending}
    {requests : ℕ} : (s.perform p env request task pending requests).log.drop s.log.length =
      [stretchEntry p env request task s.store] :=
  List.drop_left

theorem getLast?_log_perform {env : Env} {request : ℕ} {task : Task} {pending : List Pending}
    {requests : ℕ} : (s.perform p env request task pending requests).log.getLast? =
      some (stretchEntry p env request task s.store) :=
  List.getLast?_concat

/-- The handlers that wait after a stretch. -/
theorem mem_pending_perform {env : Env} {request : ℕ} {task : Task} {pending : List Pending}
    {requests : ℕ} {w : Pending} :
    w ∈ (s.perform p env request task pending requests).pending ↔ w ∈ pending ∨
      (((task.prog p).run env s.store).result = some (.await w.await) ∧ w.request = request) :=
  List.mem_append.trans (or_congr_right mem_waiting)

/-- A stretch without effects on a record keeps it. -/
theorem get?_of_not_writes (task : Task) (env : Env)
    (h : ∀ effect ∈ ((task.prog p).run env s.store).effects, ¬effect.Writes name) :
    ((task.prog p).run env s.store).store.users.get? name = s.store.users.get? name := by
  have hstep := userStep (p := p) task env s.store
  generalize (task.prog p).run env s.store = o at h hstep
  have hne : ∀ key user, .setUser key user ∈ o.effects → name ≠ propertyKey key :=
    fun key user hmem heq => h _ hmem heq.symm
  cases hstep with
  | reads husers => rw [husers]
  | registered husers heffects =>
    rw [husers]
    exact get?_setUser_ne (hne _ _ (heffects ▸ List.mem_cons_self))
  | loggedIn _ husers heffects =>
    rw [husers]
    exact get?_setUser_ne (hne _ _ (heffects ▸ List.mem_cons_of_mem _ List.mem_cons_self))
  | loggedOut _ _ _ _ husers heffects =>
    rw [husers]
    exact get?_setUser_ne (hne _ _ (heffects ▸ List.mem_cons_self))

/-- The handler of a form of the account waits for its digest. -/
inductive Account.Digests (a : Account) (p : Platform) : Form → Await → Prop where
  | register : a.Digests p .register (.register a.name a.password)
  | login {u : UserData} (hid : u.id = some a.name)
      (hpassword : u.password = some (passwordHash p a.password)) :
      a.Digests p .login (.login (some a.name) a.password u)

/-- The rest of it writes the record. -/
theorem Account.Digests.writes {a : Account} {form : Form} {await : Await}
    (h : a.Digests p form await) (env : Env) (store : Store) :
    ∃ effect ∈ ((await.resume p).run env store).effects, effect.Writes a.name := by
  cases h with
  | register => exact ⟨_, List.mem_cons_self, rfl⟩
  | login hid hpassword =>
    rw [Await.resume, loginDigest_run hpassword]
    exact ⟨_, List.mem_cons_of_mem _ List.mem_cons_self, rfl⟩

theorem Account.Digests.settles {a : Account} {form : Form} {await : Await}
    (h : a.Digests p form await) (store : Store) : await.settles store false := by
  cases h <;> rfl

/-- Requests are numbered in the order in which they come. -/
def Process.Numbered (s : Process) : Prop := ∀ w ∈ s.pending, w.request < s.requests

theorem Process.Numbered.start (hs : s.Numbered) (text : JsString) (env : Env) :
    Process.Numbered (s.perform p env s.requests (.start text) s.pending (s.requests + 1)) := by
  intro w hw
  rcases mem_pending_perform.mp hw with hw | ⟨-, hrequest⟩
  · exact Nat.lt_succ_of_lt (hs w hw)
  · exact hrequest ▸ Nat.lt_succ_self _

theorem Process.Numbered.resume (hs : s.Numbered) {waiting : Pending} {pending : List Pending}
    (hperm : s.pending.Perm (waiting :: pending)) (env : Env) : Process.Numbered
      (s.perform p env waiting.request (.resume waiting.await) pending s.requests) := by
  intro w hw
  rcases mem_pending_perform.mp hw with hw | ⟨-, hrequest⟩
  · exact hs w (hperm.mem_iff.mpr (List.mem_cons_of_mem _ hw))
  · exact hrequest ▸ hs waiting (hperm.mem_iff.mpr List.mem_cons_self)

theorem Process.Numbered.chatStep (hs : s.Numbered) {event : ChatEvent} (h : ChatSteps p s event t) :
    t.Numbered := by
  cases event with
  | handler l =>
    cases stepCases (show Steps p s l t from h) with
    | start text env ht => exact ht ▸ hs.start text env
    | resume index env timeout waiting pending hperm ht => exact ht ▸ hs.resume hperm env
  | gptReply message now =>
    obtain rfl := Option.some.inj h
    exact hs

theorem numbered {store : Store} {es : List ChatEvent}
    (h : Run (ChatSteps p) (Process.forked store) es s) : s.Numbered := by
  induction h with
  | nil => exact fun w hw => absurd hw List.not_mem_nil
  | snoc _ hstep ih => exact ih.chatStep hstep

/-- The history only grows. -/
theorem chats_grow {event : ChatEvent} (h : ChatSteps p s event t) :
    s.store.chats <+: t.store.chats := by
  have hafter := chatsAfter h
  generalize t.store.chats = chats at hafter
  cases hafter with
  | posted | gptReply => exact List.prefix_append _ _
  | request | resume => exact List.prefix_refl _

end Others

/-! ## What the process has for a visitor -/

/-- The handler of a request waits, for the digest of a form. -/
structure Account.WaitsAt (a : Account) (p : Platform) (form : Form) (request : ℕ)
    (pending : List Pending) : Prop where
  waits : ∃ w ∈ pending, w.request = request
  only : ∀ w ∈ pending, w.request = request → a.Digests p form w.await

/-- What the record must be before a form is sent. -/
def Account.Ready (a : Account) (p : Platform) (users : UserTable) : Form → Prop
  | .register => users.get? a.name = none
  | .login => ∃ u, a.Stored p users u

/-- The record and the handlers, by how far a visitor has got. -/
def Account.Holds (a : Account) (p : Platform) (users : UserTable) (pending : List Pending) :
    Visitor → Prop
  | .entering form => a.Ready p users form
  | .waiting form request => a.Ready p users form ∧ a.WaitsAt p form request pending
  | .chatting jar => ∃ uuid u, jar = a.jar uuid ∧ a.Stored p users u ∧
      u.token = some (tokenOf uuid)
  | .refused => False

/-- How the visitor goes on after the digest of a form. -/
def Form.next (a : Account) (env : Env) : Form → Visitor
  | .register => .entering .login
  | .login => .chatting (a.jar env.uuid)

/-- What is so whenever nobody disturbs the visitor. -/
structure Visited.Inv (a : Account) (p : Platform) (s : Visited) : Prop where
  numbered : s.process.Numbered
  posts : s.posts.Sublist s.process.store.chats
  holds : a.Holds p s.process.store.users s.process.pending s.visitor

section Holds

variable {p : Platform} {a : Account} {users users' : UserTable} {pending pending' : List Pending}
  {u : UserData} {v : Visitor} {form : Form}

theorem Account.Stored.congr (h : a.Stored p users u)
    (hget : users'.get? a.name = users.get? a.name) : a.Stored p users' u :=
  ⟨hget.trans h.get, h.id, h.password⟩

theorem Account.Ready.congr (h : a.Ready p users form)
    (hget : users'.get? a.name = users.get? a.name) : a.Ready p users' form := by
  cases form with
  | register => exact hget.trans h
  | login =>
    obtain ⟨u, hu⟩ := h
    exact ⟨u, hu.congr hget⟩

/-- All this depends on the record and on the handlers of forms only. -/
theorem Account.Holds.congr (h : a.Holds p users pending v)
    (hget : users'.get? a.name = users.get? a.name)
    (hwaits : ∀ form request, a.WaitsAt p form request pending →
      a.WaitsAt p form request pending') : a.Holds p users' pending' v := by
  cases v with
  | entering form => exact h.congr hget
  | waiting form request => exact ⟨h.1.congr hget, hwaits form request h.2⟩
  | chatting jar =>
    obtain ⟨uuid, u, hjar, hu, htoken⟩ := h
    exact ⟨uuid, u, hjar, hu.congr hget, htoken⟩
  | refused => exact h.elim

/-- Another request comes in. -/
theorem Account.WaitsAt.start {s : Process} (hs : s.Numbered) {env : Env} {text : JsString}
    {request : ℕ} (h : a.WaitsAt p form request s.pending) :
    a.WaitsAt p form request
      (s.perform p env s.requests (.start text) s.pending (s.requests + 1)).pending := by
  obtain ⟨w, hw, hrequest⟩ := h.waits
  refine ⟨⟨w, mem_pending_perform.mpr (.inl hw), hrequest⟩, fun w' hw' hrequest' => ?_⟩
  rcases mem_pending_perform.mp hw' with hw' | ⟨-, hnew⟩
  · exact h.only w' hw' hrequest'
  · -- requests are counted, so that the new one has a number of its own
    have := hs w hw
    omega

/-- Another handler goes on: the one that waits for the visitor would have written. -/
theorem Account.WaitsAt.resume {s : Process} {env : Env} {waiting : Pending} {request : ℕ}
    (h : a.WaitsAt p form request s.pending) (hperm : s.pending.Perm (waiting :: pending))
    (hwrites : ∀ effect ∈ ((waiting.await.resume p).run env s.store).effects,
      ¬effect.Writes a.name) :
    a.WaitsAt p form request
      (s.perform p env waiting.request (.resume waiting.await) pending s.requests).pending := by
  -- the digest of the form writes the record, which this stretch has not
  have hother : waiting.request ≠ request := by
    intro heq
    have hdigests := h.only waiting (hperm.mem_iff.mpr List.mem_cons_self) heq
    obtain ⟨effect, hmem, hwrite⟩ := hdigests.writes env s.store
    exact hwrites effect hmem hwrite
  obtain ⟨w, hw, hrequest⟩ := h.waits
  have hstays : w ∈ pending := by
    rcases List.mem_cons.mp (hperm.mem_iff.mp hw) with rfl | hw
    · exact absurd hrequest hother
    · exact hw
  refine ⟨⟨w, mem_pending_perform.mpr (.inl hstays), hrequest⟩, fun w' hw' hrequest' => ?_⟩
  rcases mem_pending_perform.mp hw' with hw' | ⟨-, hsame⟩
  · exact h.only w' (hperm.mem_iff.mpr (List.mem_cons_of_mem _ hw')) hrequest'
  · exact absurd (hsame.symm.trans hrequest') hother

end Holds

/-- **Others** leave everything as it is for the visitor. -/
theorem Visited.Inv.other {p : Platform} {a : Account} {s : Visited} {event : ChatEvent}
    {t : Process} (h : s.Inv a p) (hstep : ChatSteps p s.process event t)
    (hquiet : ∀ e ∈ t.log.drop s.process.log.length, ∀ effect ∈ e.effects, ¬effect.Writes a.name) :
    Visited.Inv a p { s with process := t } where
  numbered := h.numbered.chatStep hstep
  posts := h.posts.trans (chats_grow hstep).sublist
  holds := by
    cases event with
    -- the chatbot leaves the users and the waiting handlers alone
    | gptReply message now =>
      obtain rfl := Option.some.inj hstep
      exact h.holds
    | handler l =>
      cases stepCases (show Steps p s.process l t from hstep) with
      | start text env ht =>
        subst ht
        rw [drop_log_perform, List.forall_mem_singleton] at hquiet
        exact h.holds.congr (get?_of_not_writes (.start text) env hquiet)
          fun form request hwaits => hwaits.start h.numbered
      | resume index env timeout waiting pending hperm ht =>
        subst ht
        rw [drop_log_perform, List.forall_mem_singleton] at hquiet
        exact h.holds.congr (get?_of_not_writes (.resume waiting.await) env hquiet)
          fun form request hwaits => hwaits.resume hperm hquiet

/-! ## What the visitor does -/

/-- The steps of the process and the visitor, taken apart. -/
inductive VisitedCases {p : Platform} (site : Site p) (a : Account) (jar : CookieJar)
    (s t : Visited) : VisitedLabel → Prop where
  | other {event : ChatEvent} {process : Process} (hstep : ChatSteps p s.process event process)
      (ht : t = { s with process := process }) : VisitedCases site a jar s t (.other event)
  | submit {form : Form} {env : Env} (hvisitor : s.visitor = .entering form)
      (ht : t = { s with
        process := s.process.perform p env s.process.requests (.start (form.text site a jar))
          s.process.pending (s.process.requests + 1)
        visitor := form.seen jar (stretchEntry p env s.process.requests
          (.start (form.text site a jar)) s.process.store) }) :
      VisitedCases site a jar s t (.submit env)
  | resume {form : Form} {index : ℕ} {env : Env} {waiting : Pending} {pending : List Pending}
      (hvisitor : s.visitor = .waiting form waiting.request)
      (hperm : s.process.pending.Perm (waiting :: pending))
      (ht : t = { s with
        process := s.process.perform p env waiting.request (.resume waiting.await) pending
          s.process.requests
        visitor := form.seen jar (stretchEntry p env waiting.request (.resume waiting.await)
          s.process.store) }) :
      VisitedCases site a jar s t (.resume index env)
  | post {own : CookieJar} {message : String} {env : Env} (hvisitor : s.visitor = .chatting own)
      (ht : t = {
        process := s.process.perform p env s.process.requests (.start (postText site own message))
          s.process.pending (s.process.requests + 1)
        visitor := Visitor.sent own (callsOf (stretchEntry p env s.process.requests
          (.start (postText site own message)) s.process.store).effects)
        posts := s.posts ++ [a.record message env] }) :
      VisitedCases site a jar s t (.post message env)

section Steps

variable {p : Platform} {site : Site p} {a : Account} {jar : CookieJar} {s t : Visited}

theorem visitedCases {l : VisitedLabel} (h : VisitedSteps site a jar s l t) :
    VisitedCases site a jar s t l := by
  replace h : s.act site a jar l = some t := (Option.ite_none_left_eq_some.mp h).2
  cases l with
  | other event =>
    obtain ⟨process, hstep, ht⟩ := Option.bind_eq_some_iff.mp h
    exact .other hstep (Option.some.inj ht).symm
  | submit env =>
    simp only [Visited.act] at h
    split at h
    · rename_i form hvisitor
      obtain ⟨process, hstep, h⟩ := Option.bind_eq_some_iff.mp h
      obtain rfl := Option.some.inj hstep
      obtain ⟨e, he, ht⟩ := Option.bind_eq_some_iff.mp h
      obtain rfl := Option.some.inj (getLast?_log_perform.symm.trans he)
      exact .submit hvisitor (Option.some.inj ht).symm
    · cases h
  | resume index env =>
    simp only [Visited.act] at h
    split at h
    · rename_i form request hvisitor
      split at h
      · rename_i hown
        obtain ⟨process, hstep, h⟩ := Option.bind_eq_some_iff.mp h
        obtain ⟨waiting, hwaiting, rfl⟩ := Steps.resume (show Steps p s.process _ process from hstep)
        obtain ⟨e, he, ht⟩ := Option.bind_eq_some_iff.mp h
        obtain rfl := Option.some.inj (getLast?_log_perform.symm.trans he)
        rw [hwaiting] at hown
        obtain rfl := Option.some.inj hown
        obtain ⟨hindex, rfl⟩ := List.getElem?_eq_some_iff.mp hwaiting
        exact .resume hvisitor (List.getElem_cons_eraseIdx_perm hindex).symm (Option.some.inj ht).symm
      · cases h
    · cases h
  | post message env =>
    simp only [Visited.act] at h
    split at h
    · rename_i own hvisitor
      obtain ⟨process, hstep, h⟩ := Option.bind_eq_some_iff.mp h
      obtain rfl := Option.some.inj hstep
      obtain ⟨e, he, ht⟩ := Option.bind_eq_some_iff.mp h
      obtain rfl := Option.some.inj (getLast?_log_perform.symm.trans he)
      exact .post hvisitor (Option.some.inj ht).symm
    · cases h

end Steps

/-! ## What the process does for it -/

section Answers

variable {p : Platform} (site : Site p) {a : Account} {jar : CookieJar} (env : Env) {store : Store}

/-- A form that is sent in time gets to its digest. -/
theorem form_run {form : Form} (hserved : (makeRouter p).isSome) (hunknown : jar.Unknown store.users)
    (hready : a.Ready p store.users form) : ∃ await, a.Digests p form await ∧
      (handle p (form.text site a jar)).run env store =
        { store := store, effects := [], result := some (.await await) } := by
  obtain ⟨router, hrouter⟩ := Option.isSome_iff_exists.mp hserved
  obtain ⟨ctx, hparse, hpost, hpath, hcookie, hbody⟩ :=
    site.post_reads form.path_mem jar a.form
  have hunknown := hunknown ctx hcookie
  cases form with
  | register =>
    refine ⟨_, .register, ?_⟩
    rw [Form.text, handle_run_route .register hrouter hparse hpath]
    exact register_form hunknown hpost hbody hready
  | login =>
    obtain ⟨u, hu⟩ := hready
    refine ⟨_, .login hu.id hu.password, ?_⟩
    rw [Form.text, handle_run_route .login hrouter hparse hpath]
    exact login_form hunknown hpost hbody hu

theorem redirectOf_callsOf (location : JsString) (headers : List (JsString × JsString)) :
    redirectOf (callsOf (redirectCalls location headers)) =
      some (location, (js "Location", location) :: headers) :=
  redirectOf_response location headers

/-- The digest brings the visitor on, and leaves what its next step needs. -/
theorem digest_run {form : Form} {await : Await} (h : a.Digests p form await)
    (hready : a.Ready p store.users form) :
    ((await.resume p).run env store).result = some .done ∧
      form.answered jar (callsOf ((await.resume p).run env store).effects) = form.next a env ∧
      ∀ pending, a.Holds p ((await.resume p).run env store).store.users pending
        (form.next a env) := by
  cases h with
  -- the visitor is sent to `/login`, and its record is stored
  | register =>
    refine ⟨rfl, ?_, fun _ => registerDigest_stores hready⟩
    have hcalls : callsOf ((Await.register a.name a.password).resume p |>.run env store).effects =
        callsOf (redirectCalls (js "/login")) := rfl
    rw [hcalls, Form.answered, redirectOf_callsOf]
    rfl
  -- the visitor gets the cookies of the token that is stored
  | @login u hid hpassword =>
    obtain ⟨u', hu'⟩ := hready
    have hstores : ∃ v, a.Stored p
        ((loginDigest p (some a.name) a.password u).run env store).store.users v ∧
          v.token = some (tokenOf env.uuid) := loginDigest_stores hu' hid hpassword
    obtain ⟨v, hv, htoken⟩ := hstores
    refine ⟨by rw [Await.resume, loginDigest_run hpassword], ?_,
      fun _ => ⟨env.uuid, v, rfl, hv, htoken⟩⟩
    have hcalls : callsOf ((loginDigest p (some a.name) a.password u).run env store).effects =
        callsOf (redirectCalls (js "/chat") (sessionCookies (some a.name) (tokenOf env.uuid))) := by
      rw [loginDigest_run hpassword]
      rfl
    rw [Await.resume, hcalls, Form.answered, Visitor.sent, redirectOf_callsOf]
    show ite _ _ _ = _
    rw [if_pos rfl, login_cookies]
    rfl

/-- A message that is posted with the cookies of the session is stored. -/
theorem post_run {uuid : Uuid} {u : UserData} (hserved : (makeRouter p).isSome)
    (hu : a.Stored p store.users u) (htoken : u.token = some (tokenOf uuid)) (message : String) :
    ∃ effects, (handle p (postText site (a.jar uuid) message)).run env store =
        { store := { store with chats := store.chats ++ [a.record message env] }
          effects := effects, result := some .done } ∧
      redirectOf (callsOf effects) = some (js "/chat", [(js "Location", js "/chat")]) := by
  obtain ⟨router, hrouter⟩ := Option.isSome_iff_exists.mp hserved
  obtain ⟨ctx, hparse, hpost, hpath, hcookie, hbody⟩ :=
    site.post_reads chat_mem (a.jar uuid) (js "message=" ++ formEncode message)
  obtain ⟨huser, hcookieToken⟩ := cookies_jar hcookie
  have hfound : getUser store.users ctx.userCookie = some u := by
    rw [huser]
    exact getUser_own hu.get
  have hsession : ¬ctx.tokenCookie ≠ u.token := not_not.mpr (hcookieToken.trans htoken.symm)
  have hget : ¬js "POST" = js "GET" := by decide
  rw [postText, handle_run_route .chatroom hrouter hparse hpath]
  simp only [Route.handler, chatroom, withSession, serveChat, Prog.run_bind, run_userGet, hfound,
    Outcome.after_nil, if_neg hsession, hpost, if_neg hget, if_true, postedMessage_formEncode hbody,
    run_require_some, run_dateNow, run_chatAdd, hu.id]
  -- the chatbot may be started
  split
  · exact ⟨_, rfl, redirectOf_callsOf _ _⟩
  · exact ⟨_, rfl, redirectOf_callsOf _ _⟩

end Answers

/-! ## Runs -/

section Runs

variable {p : Platform} {site : Site p} {a : Account} {jar : CookieJar} {s t : Visited}

/-- The visitor sends a form. -/
theorem Visited.Inv.submit (h : s.Inv a p) {form : Form} {env : Env}
    (hserved : (makeRouter p).isSome) (hunknown : jar.Unknown s.process.store.users)
    (hvisitor : s.visitor = .entering form) :
    Visited.Inv a p { s with
      process := s.process.perform p env s.process.requests (.start (form.text site a jar))
        s.process.pending (s.process.requests + 1)
      visitor := form.seen jar (stretchEntry p env s.process.requests
        (.start (form.text site a jar)) s.process.store) } := by
  have hready : a.Ready p s.process.store.users form := by
    have := h.holds
    rwa [hvisitor] at this
  obtain ⟨await, hdigests, hrun⟩ := form_run site env hserved hunknown hready
  have hprog : (Task.prog p (.start (form.text site a jar))).run env s.process.store = _ := hrun
  refine ⟨?_, ?_, ?_⟩
  · exact h.numbered.start _ env
  · show s.posts.Sublist ((Task.prog p (.start _)).run env s.process.store).store.chats
    rw [hprog]
    exact h.posts
  · -- the form is not answered yet: its handler waits for the digest
    have hseen : form.seen jar (stretchEntry p env s.process.requests
        (.start (form.text site a jar)) s.process.store) = .waiting form s.process.requests := by
      simp only [Form.seen, stretchEntry, hprog]
    have husers : (s.process.perform p env s.process.requests (.start (form.text site a jar))
        s.process.pending (s.process.requests + 1)).store.users = s.process.store.users := by
      simp only [Process.perform, hprog]
    rw [hseen]
    refine ⟨husers ▸ hready, ⟨⟨s.process.requests, await⟩, ?_, rfl⟩, fun w hw hrequest => ?_⟩
    · exact mem_pending_perform.mpr (.inr ⟨by rw [hprog], rfl⟩)
    · rcases mem_pending_perform.mp hw with hw | ⟨hnew, -⟩
      · exact absurd hrequest (Nat.ne_of_lt (h.numbered w hw))
      · rw [hprog] at hnew
        obtain ⟨⟩ := hnew
        exact hdigests

/-- What the visitor sees when the handler of its form goes on. -/
theorem Visited.Inv.seen (h : s.Inv a p) {form : Form} (env : Env) {w : Pending}
    (hvisitor : s.visitor = .waiting form w.request) (hw : w ∈ s.process.pending) :
    form.seen jar (stretchEntry p env w.request (.resume w.await) s.process.store) =
        form.next a env ∧
      ∀ pending, a.Holds p ((w.await.resume p).run env s.process.store).store.users pending
        (form.next a env) := by
  have hholds := h.holds
  rw [hvisitor] at hholds
  obtain ⟨hready, hwaits⟩ := hholds
  obtain ⟨hdone, hanswer, hnext⟩ := digest_run env (hwaits.only w hw rfl) hready
  refine ⟨?_, hnext⟩
  simp only [Form.seen, stretchEntry, Task.prog, hdone]
  exact hanswer

/-- The handler of the form goes on. -/
theorem Visited.Inv.resume (h : s.Inv a p) {form : Form} (env : Env) {waiting : Pending}
    {pending : List Pending} (hvisitor : s.visitor = .waiting form waiting.request)
    (hperm : s.process.pending.Perm (waiting :: pending)) :
    Visited.Inv a p { s with
      process := s.process.perform p env waiting.request (.resume waiting.await) pending
        s.process.requests
      visitor := form.seen jar (stretchEntry p env waiting.request (.resume waiting.await)
        s.process.store) } := by
  obtain ⟨hseen, hnext⟩ := h.seen env hvisitor (hperm.mem_iff.mpr List.mem_cons_self)
  refine ⟨h.numbered.resume hperm env, ?_, ?_⟩
  · have hchats := (resume_keepsChats (p := p) waiting.await).run env s.process.store
    exact hchats ▸ h.posts
  · rw [hseen]
    exact hnext _

/-- The visitor posts a message. -/
theorem Visited.Inv.post (h : s.Inv a p) {own : CookieJar} {message : String} {env : Env}
    (hserved : (makeRouter p).isSome) (hvisitor : s.visitor = .chatting own) :
    Visited.Inv a p {
      process := s.process.perform p env s.process.requests (.start (postText site own message))
        s.process.pending (s.process.requests + 1)
      visitor := Visitor.sent own (callsOf (stretchEntry p env s.process.requests
        (.start (postText site own message)) s.process.store).effects)
      posts := s.posts ++ [a.record message env] } := by
  have hholds := h.holds
  rw [hvisitor] at hholds
  obtain ⟨uuid, u, rfl, hu, htoken⟩ := hholds
  obtain ⟨effects, hrun, hredirect⟩ := post_run site env hserved hu htoken message
  have hprog : (Task.prog p (.start (postText site (a.jar uuid) message))).run env
      s.process.store = _ := hrun
  refine ⟨?_, ?_, ?_⟩
  · exact h.numbered.start _ env
  · show List.Sublist _ ((Task.prog p (.start _)).run env s.process.store).store.chats
    rw [hprog]
    exact h.posts.append (List.Sublist.refl _)
  · -- the visitor is sent back to the chat, with the cookies it has
    have hsent : Visitor.sent (a.jar uuid) (callsOf (stretchEntry p env s.process.requests
        (.start (postText site (a.jar uuid) message)) s.process.store).effects) =
        .chatting (a.jar uuid) := by
      simp only [stretchEntry, hprog, Visitor.sent, hredirect]
      rfl
    rw [hsent]
    refine ⟨uuid, u, rfl, hu.congr ?_, htoken⟩
    simp only [Process.perform, hprog]

/-- What a step preserves. -/
theorem Visited.Inv.step (h : s.Inv a p) (hserved : (makeRouter p).isSome) {l : VisitedLabel}
    (hquiet : Visited.Undisturbed p a jar s l) (hstep : VisitedSteps site a jar s l t) : t.Inv a p := by
  cases visitedCases hstep with
  | other hother ht =>
    subst ht
    exact h.other hother (hquiet _ hother)
  | submit hvisitor ht =>
    subst ht
    exact h.submit hserved hquiet hvisitor
  | resume hvisitor hperm ht =>
    subst ht
    exact h.resume _ hvisitor hperm
  | post hvisitor ht =>
    subst ht
    exact h.post hserved hvisitor

/-- While the worker lives, the handler that the visitor waits for can go on, and brings it on. -/
theorem Visited.Inv.exists_resume (h : s.Inv a p) (hliving : s.process.threw = false) {form : Form}
    {request : ℕ} (hvisitor : s.visitor = .waiting form request) (env : Env) :
    ∃ index t, VisitedSteps site a jar s (.resume index env) t ∧ t.visitor = form.next a env := by
  have hholds := h.holds
  rw [hvisitor] at hholds
  obtain ⟨-, hwaits⟩ := hholds
  obtain ⟨w, hw, rfl⟩ := hwaits.waits
  obtain ⟨index, hindex, hget⟩ := List.getElem_of_mem hw
  have hpending : s.process.pending[index]? = some w := List.getElem?_eq_some_iff.mpr ⟨hindex, hget⟩
  have hsettles := (hwaits.only w hw rfl).settles s.process.store
  have hstep : s.process.step p (.resume index env false) = some (s.process.perform p env w.request
      (.resume w.await) (s.process.pending.eraseIdx index) s.process.requests) := by
    show (s.process.pending[index]?).bind _ = _
    rw [hpending]
    exact if_pos hsettles
  have hvisited : VisitedSteps site a jar s (.resume index env) { s with
      process := s.process.perform p env w.request (.resume w.await)
        (s.process.pending.eraseIdx index) s.process.requests
      visitor := form.seen jar (stretchEntry p env w.request (.resume w.await) s.process.store) } := by
    simp only [VisitedSteps, Visited.step, hliving, Bool.false_eq_true, if_false, Visited.act,
      hvisitor, hpending, Option.map_some, if_true, hstep]
    show (Process.log _).getLast?.bind _ = _
    rw [getLast?_log_perform]
    rfl
  exact ⟨index, _, hvisited, (h.seen env hvisitor hw).1⟩

end Runs

/-- Alice, with a password. -/
def aliceAccount : Account where
  name := js "alice"
  password := js "password"
  name_length := by decide
  name_notGpt := by decide
  name_own := by decide
  name_plain := List.all_iff_forall_prop.mp (by decide)
  password_length := by decide
  password_plain := List.all_iff_forall_prop.mp (by decide)

/-- Alice comes without cookies. While the digest of her form is made, somebody else asks for the
chat, and between her messages the chatbot answers. -/
def aliceVisits : List VisitedLabel :=
  [.submit sampleEnv,
    .other (.handler (.request (sampleRequest "GET" "/chat" (js "user=alice") []) sampleEnv)),
    .resume 0 sampleEnv, .submit sampleEnv, .resume 0 sampleEnv, .post "1 + é = &" sampleEnv,
    .other (.gptReply (js "hello") 0), .post "bye" sampleEnv]

end NetworkServers.Phase2
