import NetworkServers.Phase2.Framing

/-!
# Pipelined Requests

Requests that arrive on one socket before earlier ones are answered. Their handlers write
straight to the socket, so a response stays in one piece and in its place only if no
handler writes while one of an earlier request still waits, and is completed only if the
worker does not end before. `InTurn` is that condition on a step; a run of such steps keeps
the responses in the order in which the requests have arrived.
-/

namespace NetworkServers.Phase2

open NetworkServers.Js NetworkServers.Runs
open Prog (require)

/-! ## What is on a socket -/

/-- A call for a request, at its date. -/
structure Write where
  request : ℕ
  date : UTCString
  call : Call

/-- The bytes of a write. -/
def Write.bytes (w : Write) : List UInt8 := w.call.bytes w.date

/-- The writes of a stretch. -/
def Entry.writes (e : Entry) (date : UTCString) : List Write :=
  (callsOf e.effects).map fun c => { request := e.request, date := date, call := c }

/-- All writes of a process, where the dates are those at which the stretches have run. -/
def Process.writes (dates : ℕ → UTCString) (s : Process) : List Write :=
  s.log.zipIdx.flatMap fun (e, i) => e.writes (dates i)

/-- The bytes on a socket, on which the requests `mine` have arrived. -/
def Process.socketBytes (dates : ℕ → UTCString) (mine : ℕ → Bool) (s : Process) : List UInt8 :=
  ((s.writes dates).filter fun w => mine w.request).flatMap Write.bytes

/-- The bytes that have been written for one request. -/
def Process.responseBytes (dates : ℕ → UTCString) (s : Process) (request : ℕ) : List UInt8 :=
  ((s.writes dates).filter fun w => w.request = request).flatMap Write.bytes

/-- The calls that have been made for one request. -/
def Process.callsFor (s : Process) (request : ℕ) : List Call :=
  (s.log.filter fun e => e.request = request).flatMap fun e => callsOf e.effects

/-- The handler of a request waits. -/
def Process.Waits (s : Process) (request : ℕ) : Prop := ∃ w ∈ s.pending, w.request = request

/-- A stretch of a request has thrown. -/
def Process.Threw (s : Process) (request : ℕ) : Prop :=
  ∃ e ∈ s.log, e.request = request ∧ e.result = none

/-- **Responses do not mix** on a socket of a worker. -/
structure InOrder (dates : ℕ → UTCString) (mine : ℕ → Bool) (w : WorkerProcess) : Prop where
  /-- The bytes are those of the responses, in the order in which the requests came. -/
  bytes : w.process.socketBytes dates mine =
    ((List.range w.process.requests).filter mine).flatMap (w.process.responseBytes dates)
  /-- A response begins when those in front of it have ended. -/
  ended : ∀ r r', mine r → mine r' → r < r' → w.process.callsFor r' ≠ [] → ¬w.process.Waits r
  /-- A response is complete, or the worker lives and its handler goes on; or the handler has
  come to its end without a call. -/
  complete : ∀ r < w.process.requests, mine r → OneResponse (w.process.callsFor r) ∨
    (w.ended = false ∧ w.process.Waits r) ∨
    (w.process.callsFor r = [] ∧ ¬w.process.Waits r)

/-! ## Steps in turn -/

/-- A request for the chat page, with a session, by a method that the page has no answer
to. -/
structure SilentRequest (users : UserTable) (ctx : HTTPContext) : Prop where
  path : ctx.path.pathname = js "/chat"
  notGet : ctx.method ≠ js "GET"
  notPost : ctx.method ≠ js "POST"
  session : PassesSession users ctx

/-- Requests whose handler does not throw: they parse, and have what the handler of the route
looks at. -/
structure Handled (p : Platform) (users : UserTable) (text : JsString) : Prop where
  served : (makeRouter p).isSome
  parsed : ∃ ctx, parse p text = some ctx ∧ ∀ route : Route, ctx.path.pathname = route.path →
    route.Needs p users ctx ∨ SilentRequest users ctx

/-- Requests whose handler writes nothing before it waits for the first time, or at all. -/
inductive HoldsBack (users : UserTable) (ctx : HTTPContext) : Prop where
  | registration {username password : JsString} (h : StartsRegistration users ctx username password)
  | login {username : Option JsString} {password : JsString} {u : UserData}
      (h : LoginRequest users ctx username password u)
  | poll (h : PollRequest users ctx)
  | silent (h : SilentRequest users ctx)

/-- A request to `/reflect` whose context can be turned into JSON: its handler does not throw
behind its headers. -/
def Reflects (p : Platform) (text : JsString) : Prop :=
  ∀ ctx, parse p text = some ctx → ctx.path.pathname = js "/reflect" → (p.stringify ctx).isSome

/-- The handler of a request of the socket waits. -/
def Process.Busy (s : Process) (mine : ℕ → Bool) : Prop := ∃ r, mine r ∧ s.Waits r

/-- A step that writes on the socket finds no handler of an earlier request on it waiting, and
the worker does not end, by a handler for whatever socket or otherwise, while one waits or in
the middle of a response on the socket. -/
def InTurn (p : Platform) (mine : ℕ → Bool) (w : WorkerProcess) : WorkerLabel → Prop
  | .step (.request text _) =>
    (w.process.Busy mine → Handled p w.process.store.users text ∧
      (mine w.process.requests → ∀ ctx, parse p text = some ctx →
        HoldsBack w.process.store.users ctx)) ∧
    (mine w.process.requests → Reflects p text)
  | .step (.resume index _ _) => ∀ waiting, w.process.pending[index]? = some waiting →
      mine waiting.request → ∀ r < waiting.request, mine r → ¬w.process.Waits r
  | .files _ => True
  | .exit => ¬w.process.Busy mine

section Requests

variable {p : Platform} {ctx : HTTPContext} {router : Router} {env : Env} {s : Store}

/-- A registration, a login or a chat message that lacks a field is not written for. -/
theorem callsOf_unanswered {route : Route} (hroute : route ≠ .reflect)
    (h : ¬route.Needs p s.users ctx) :
    callsOf ((route.handler p router ctx).run env s).effects = [] := by
  cases route with
  | reflect => exact absurd rfl hroute
  | computeSqrt | logout | chatStatus => exact absurd trivial h
  | register =>
    simp only [Route.Needs, Classical.not_imp, not_exists, not_and] at h
    obtain ⟨hcookie, hpost, h⟩ := h
    -- a field is missing, so the handler throws before it writes
    have hget : js "POST" ≠ js "GET" := by decide
    simp only [Route.handler, register, Prog.run_bind, run_userGet, hcookie, hpost, if_neg hget,
      Outcome.after_nil, Option.isSome_none, Bool.false_eq_true, if_false, if_true]
    cases husername : field ctx.form (js "username") with
    | none => rfl
    | some username =>
      obtain ⟨hlength, hpassword⟩ := h username husername
      have hallowed : ¬(username.length < 3 ∨ username.length > 32) := by omega
      rw [Bool.not_eq_true, Option.isSome_eq_false_iff, Option.isNone_iff_eq_none] at hpassword
      simp only [run_require_some, if_neg hallowed, Prog.run_bind, hpassword, run_require_none]
      rfl
  | login =>
    simp only [Route.Needs, Classical.not_imp] at h
    obtain ⟨hcookie, hpost, hfound, hpassword⟩ := h
    have hget : js "POST" ≠ js "GET" := by decide
    obtain ⟨u, hu⟩ := Option.isSome_iff_exists.mp hfound
    rw [Bool.not_eq_true, Option.isSome_eq_false_iff, Option.isNone_iff_eq_none] at hpassword
    simp only [Route.handler, login, Prog.run_bind, run_userGet, hcookie, hpost, if_neg hget,
      Outcome.after_nil, Option.isSome_none, Bool.false_eq_true, if_false, if_true, hu,
      hpassword, run_require_none]
    rfl
  | chatroom =>
    simp only [Route.Needs, not_forall, not_or, not_and] at h
    obtain ⟨u, hu, htoken, hget, hpost⟩ := h
    simp only [Route.handler, chatroom, withSession, Prog.run_bind, run_userGet, hu, htoken,
      Outcome.after_nil, ne_eq, not_true_eq_false, if_false, serveChat, if_neg hget]
    -- behind the session check a message is missing, or the method has no branch
    by_cases hmethod : ctx.method = js "POST"
    · have hmessage := hpost hmethod
      rw [Bool.not_eq_true, Option.isSome_eq_false_iff, Option.isNone_iff_eq_none] at hmessage
      simp only [if_pos hmethod, Prog.run_bind, hmessage, run_require_none]
      rfl
    · rw [if_neg hmethod]
      rfl

/-- A silent request ends without a call. -/
theorem handle_run_silent {text : JsString} (hrouter : makeRouter p = some router)
    (hparse : parse p text = some ctx) (h : SilentRequest s.users ctx) :
    (handle p text).run env s = { store := s, effects := [], result := some .done } := by
  obtain ⟨hpath, hget, hpost, u, hu, htoken⟩ := h
  have hroute := (overrides_eq_some_iff hrouter _ .chatroom).mpr hpath
  simp only [handle, hparse, hrouter, Prog.run_bind, run_require_some, Outcome.after_nil,
    Router.handle, hroute, Route.handler, chatroom, withSession, run_userGet, hu, htoken, ne_eq,
    not_true_eq_false, if_false, serveChat, if_neg hget, if_neg hpost, run_pure]

/-- A request that is handled does not throw. -/
theorem Handled.exists_result {text : JsString} (h : Handled p s.users text) (env : Env) :
    ∃ next, ((handle p text).run env s).result = some next := by
  obtain ⟨router, hrouter⟩ := Option.isSome_iff_exists.mp h.served
  obtain ⟨ctx, hparse, hneeds⟩ := h.parsed
  by_cases hsilent : SilentRequest s.users ctx
  · exact ⟨.done, by rw [handle_run_silent hrouter hparse hsilent]⟩
  · have hanswers : (router.handle p ctx).Ends env (fun _ => Answers p) s [] :=
      (routerHandle_answers_iff hrouter).mpr fun route hpath =>
        (hneeds route hpath).resolve_right hsilent
    obtain ⟨next, hresult, -⟩ := Prog.ends_iff.mp hanswers
    refine ⟨next, ?_⟩
    simpa only [handle, hparse, hrouter, Prog.run_bind, run_require_some, Outcome.after_nil]
      using hresult

/-- A request that holds back writes nothing in its first stretch. -/
theorem HoldsBack.callsOf_eq_nil {text : JsString} (hrouter : makeRouter p = some router)
    (hparse : parse p text = some ctx) (h : HoldsBack s.users ctx) :
    callsOf ((handle p text).run env s).effects = [] := by
  cases h with
  | registration h =>
    rw [handle_run_registration hrouter hparse h]
    rfl
  | login h =>
    rw [handle_run_login hrouter hparse h]
    rfl
  | poll h =>
    rw [handle_run_poll hrouter hparse h]
    rfl
  | silent h =>
    rw [handle_run_silent hrouter hparse h]
    rfl

/-- A request whose handler throws is not written for. -/
theorem Reflects.callsOf_eq_nil {text : JsString} (h : Reflects p text)
    (hthrew : ((handle p text).run env s).result = none) :
    callsOf ((handle p text).run env s).effects = [] := by
  cases hrouter : makeRouter p with
  | none =>
    rw [handle_run_noRouter hrouter]
    rfl
  | some router =>
    cases hparse : parse p text with
    | none =>
      rw [handle, hparse]
      rfl
    | some ctx =>
      simp only [handle, hparse, hrouter, Prog.run_bind, run_require_some, Outcome.after_nil]
        at hthrew ⊢
      have hends : ¬(router.handle p ctx).Ends env (fun _ => Answers p) s [] := by
        intro hends
        obtain ⟨next, hresult, -⟩ := Prog.ends_iff.mp hends
        rw [hthrew] at hresult
        cases hresult
      -- the route lacks something that it looks at before it writes
      rw [routerHandle_answers_iff hrouter] at hends
      push Not at hends
      obtain ⟨route, hpath, hneeds⟩ := hends
      have hreflect : route ≠ .reflect := by
        rintro rfl
        exact hneeds (h ctx hparse hpath)
      rw [Router.handle, (overrides_eq_some_iff hrouter _ route).mpr hpath]
      exact callsOf_unanswered hreflect hneeds

end Requests

/-! ## What a stretch adds -/

section Perform

variable {p : Platform} {s t : Process} {env : Env} {request : ℕ} {task : Task}
  {pending : List Pending} {requests : ℕ}

/-- A stretch makes calls for its own request only. -/
theorem callsFor_perform (r : ℕ) :
    (s.perform p env request task pending requests).callsFor r = s.callsFor r ++
      if request = r then callsOf ((task.prog p).run env s.store).effects else [] := by
  unfold Process.callsFor Process.perform
  rw [List.filter_append, List.flatMap_append]
  by_cases hr : request = r
  · simp [hr]
  · simp [hr]

/-- The writes of a stretch come behind all others. -/
theorem writes_perform (dates : ℕ → UTCString) :
    (s.perform p env request task pending requests).writes dates = s.writes dates ++
      (callsOf ((task.prog p).run env s.store).effects).map fun c =>
        { request := request, date := dates s.log.length, call := c } := by
  unfold Process.writes Process.perform
  simp only [List.zipIdx_append, List.flatMap_append, List.zipIdx_singleton,
    List.flatMap_singleton, Nat.zero_add]
  rfl

/-- A request that has been written for is one that calls have been made for. -/
theorem callsFor_ne_nil {dates : ℕ → UTCString} {w : Write} (hw : w ∈ s.writes dates) :
    s.callsFor w.request ≠ [] := by
  obtain ⟨⟨e, i⟩, he, hw⟩ := List.mem_flatMap.mp hw
  obtain ⟨c, hc, rfl⟩ := List.mem_map.mp hw
  have hmem : e ∈ s.log := (List.mem_zipIdx he).2.2 ▸ List.getElem_mem _
  apply List.ne_nil_of_mem (a := c)
  exact List.mem_flatMap.mpr ⟨e, List.mem_filter.mpr ⟨hmem, by simp⟩, hc⟩

theorem waits_perform {r : ℕ} :
    (s.perform p env request task pending requests).Waits r ↔
      (∃ w ∈ pending, w.request = r) ∨
        (request = r ∧ ∃ a, ((task.prog p).run env s.store).result = some (.await a)) := by
  simp only [Process.Waits, Process.perform, List.mem_append, mem_waiting]
  constructor
  · rintro ⟨w, hw | ⟨hresult, hrequest⟩, rfl⟩
    · exact .inl ⟨w, hw, rfl⟩
    · exact .inr ⟨hrequest.symm, w.await, hresult⟩
  · rintro (⟨w, hw, rfl⟩ | ⟨rfl, a, hresult⟩)
    · exact ⟨w, .inl hw, rfl⟩
    · exact ⟨{ request := request, await := a }, .inr ⟨hresult, rfl⟩, rfl⟩

/-- A stretch that throws is the end of its request. -/
theorem threw_perform {r : ℕ} :
    (s.perform p env request task pending requests).Threw r ↔
      s.Threw r ∨ (request = r ∧ ((task.prog p).run env s.store).result = none) := by
  simp only [Process.Threw, Process.perform, List.mem_append, List.mem_singleton]
  constructor
  · rintro ⟨e, he | rfl, hrequest, hresult⟩
    · exact .inl ⟨e, he, hrequest, hresult⟩
    · exact .inr ⟨hrequest, hresult⟩
  · rintro (⟨e, he, hthrew⟩ | ⟨hrequest, hresult⟩)
    · exact ⟨e, .inl he, hthrew⟩
    · exact ⟨_, .inr rfl, hrequest, hresult⟩

/-- Some stretch has thrown for some request. -/
theorem threw_iff : s.threw ↔ ∃ r, s.Threw r := by
  simp only [Process.threw, List.any_eq_true, Option.isNone_iff_eq_none]
  exact ⟨fun ⟨e, he, hresult⟩ => ⟨e.request, e, he, rfl, hresult⟩,
    fun ⟨_, e, he, _, hresult⟩ => ⟨e, he, hresult⟩⟩

theorem not_threw (h : s.threw = false) (r : ℕ) : ¬s.Threw r := by
  intro hthrew
  rw [threw_iff.mpr ⟨r, hthrew⟩] at h
  cases h

end Perform

/-! ## Every handler answers its own request -/

/-- What the first stretch of a request calls is nothing, or a response or its
beginning. -/
theorem StartCalls.answers {p : Platform} {s : Store} {ctx : HTTPContext} {calls : List Call}
    {next : Next} (h : StartCalls p s ctx calls next) :
    (next = .done ∧ calls = []) ∨ Answers p calls next := by
  cases h with
  | answered h => exact .inr (.done h)
  | unanswered => exact .inl ⟨rfl, rfl⟩
  | register username password => exact .inr (answers_register username password)
  | login h => exact .inr (answers_login _ _ _)
  | stream => exact .inr (answers_stream 200 _ _ [])
  | changed h => exact .inr (answers_changed _)

/-- The handler of a request has thrown, or it waits in the middle of a response, or it is
done with one, or it has not written anything. -/
inductive HandlerState (p : Platform) (s : Process) (r : ℕ) : Prop where
  | threw (h : s.Threw r)
  | waits {w : Pending} (hw : w ∈ s.pending) (hrequest : w.request = r)
      (h : Answers p (s.callsFor r) (.await w.await))
  | done (hwaits : ¬s.Waits r) (h : s.callsFor r = [] ∨ OneResponse (s.callsFor r))

/-- Requests are numbered, and every handler answers its own. -/
structure HandlersInv (p : Platform) (s : Process) : Prop where
  distinct : (s.pending.map Pending.request).Nodup
  known : ∀ w ∈ s.pending, w.request < s.requests
  logged : ∀ e ∈ s.log, e.request < s.requests
  handlers : ∀ r < s.requests, HandlerState p s r

theorem handlersInv_forked {p : Platform} (store : Store) : HandlersInv p (.forked store) where
  distinct := List.nodup_nil
  known := fun _ hw => absurd hw List.not_mem_nil
  logged := fun _ he => absurd he List.not_mem_nil
  handlers := fun _ hr => absurd hr (Nat.not_lt_zero _)

section Handlers

variable {p : Platform} {s t : Process} {env : Env} {request : ℕ} {task : Task}
  {pending : List Pending} {requests : ℕ}

/-- Nothing has been called for a request that has not come in. -/
theorem HandlersInv.callsFor_eq_nil (h : HandlersInv p s) {r : ℕ} (hr : s.requests ≤ r) :
    s.callsFor r = [] := by
  have hnone : s.log.filter (fun e => e.request = r) = [] := by
    rw [List.filter_eq_nil_iff]
    intro e he
    have hlt := h.logged e he
    simp only [decide_eq_true_iff]
    omega
  rw [Process.callsFor, hnone, List.flatMap_nil]

/-- A handler that does not run stays as it is. -/
theorem HandlerState.perform {r : ℕ} (h : HandlerState p s r) (hne : request ≠ r)
    (hsub : ∀ w, w ∈ pending ↔ w ∈ s.pending ∧ w.request ≠ request) :
    HandlerState p (s.perform p env request task pending requests) r := by
  have hcalls : (s.perform p env request task pending requests).callsFor r = s.callsFor r := by
    rw [callsFor_perform, if_neg hne, List.append_nil]
  cases h with
  | threw h =>
    obtain ⟨e, he, hthrew⟩ := h
    exact .threw ⟨e, List.mem_append_left _ he, hthrew⟩
  | waits hw hrequest h =>
    have hstays := (hsub _).mpr ⟨hw, fun heq => hne (heq.symm.trans hrequest)⟩
    exact .waits (List.mem_append_left _ hstays) hrequest (hcalls ▸ h)
  | done hwaits h =>
    refine .done (fun hwaits' => ?_) (hcalls ▸ h)
    -- nobody begins to wait for a request but its own handler
    rcases waits_perform.mp hwaits' with ⟨w, hw, hrequest⟩ | ⟨heq, -⟩
    · exact hwaits ⟨w, ((hsub w).mp hw).1, hrequest⟩
    · exact hne heq

/-- The handler that runs has thrown, or it waits again or is done. -/
theorem HandlerState.performed (hsub : ∀ w ∈ pending, w.request ≠ request)
    (h : ∀ next, ((task.prog p).run env s.store).result = some next →
      (next = .done ∧ s.callsFor request = [] ∧
        callsOf ((task.prog p).run env s.store).effects = []) ∨
      Answers p (s.callsFor request ++ callsOf ((task.prog p).run env s.store).effects) next) :
    HandlerState p (s.perform p env request task pending requests) request := by
  have hcalls : (s.perform p env request task pending requests).callsFor request =
      s.callsFor request ++ callsOf ((task.prog p).run env s.store).effects := by
    rw [callsFor_perform, if_pos rfl]
  -- a request that is done waits nowhere, since it has one handler
  have hdone : ((task.prog p).run env s.store).result = some .done →
      ¬(s.perform p env request task pending requests).Waits request := by
    intro hresult hwaits
    rcases waits_perform.mp hwaits with ⟨w, hw, hrequest⟩ | ⟨-, a, hawait⟩
    · exact hsub w hw hrequest
    · cases hresult.symm.trans hawait
  cases hresult : ((task.prog p).run env s.store).result with
  | none => exact .threw ⟨_, List.mem_append_right _ (List.mem_singleton_self _), rfl, hresult⟩
  | some next =>
    rcases h next hresult with ⟨rfl, hold, hnew⟩ | hanswers
    · exact .done (hdone hresult) (.inl (by rw [hcalls, hold, hnew, List.nil_append]))
    cases next with
    | done => exact .done (hdone hresult) (.inr (hcalls ▸ answers_done.mp hanswers))
    | await a =>
      have hwaiting : ({ request := request, await := a } : Pending) ∈
          (s.perform p env request task pending requests).pending :=
        List.mem_append_right _ (mem_waiting.mpr ⟨hresult, rfl⟩)
      exact .waits hwaiting rfl (hcalls ▸ hanswers)

/-- The two kinds of steps, with what the invariant says about the request that runs. -/
inductive TurnCases (p : Platform) (s t : Process) : Label → Prop where
  | start (text : JsString) (env : Env)
      (h : t = s.perform p env s.requests (.start text) s.pending (s.requests + 1)) :
      TurnCases p s t (.request text env)
  | resume (index : ℕ) (env : Env) (timeout : Bool) (waiting : Pending) (pending : List Pending)
      (hindex : s.pending[index]? = some waiting)
      (hsub : ∀ w, w ∈ pending ↔ w ∈ s.pending ∧ w.request ≠ waiting.request)
      (hnodup : (pending.map Pending.request).Nodup)
      (h : t = s.perform p env waiting.request (.resume waiting.await) pending s.requests) :
      TurnCases p s t (.resume index env timeout)

theorem HandlersInv.turnCases (h : HandlersInv p s) {l : Label} (hstep : Steps p s l t) :
    TurnCases p s t l := by
  cases l with
  | request text env => exact .start text env (Option.some.inj hstep).symm
  | resume index env timeout =>
    obtain ⟨waiting, hwaiting, ht⟩ := hstep.resume
    obtain ⟨hindex, hget⟩ := List.getElem?_eq_some_iff.mp hwaiting
    have hperm := (List.getElem_cons_eraseIdx_perm hindex).symm
    rw [hget] at hperm
    have hdistinct := (hperm.map Pending.request).nodup_iff.mp h.distinct
    rw [List.map_cons, List.nodup_cons] at hdistinct
    refine .resume index env timeout waiting _ hwaiting (fun w => ?_) hdistinct.2 ht
    -- the others wait for other requests
    have hmem := hperm.mem_iff (a := w)
    rw [List.mem_cons] at hmem
    constructor
    · intro hw
      refine ⟨hmem.mpr (.inr hw), fun heq => hdistinct.1 ?_⟩
      exact List.mem_map.mpr ⟨w, hw, heq⟩
    · rintro ⟨hw, hne⟩
      exact (hmem.mp hw).resolve_left fun heq => hne (heq ▸ rfl)

/-- The other handlers, and the one that has run if it waits, wait for different
requests. -/
theorem distinct_perform (hnodup : (pending.map Pending.request).Nodup)
    (hsub : ∀ w ∈ pending, w.request ≠ request) :
    ((s.perform p env request task pending requests).pending.map Pending.request).Nodup := by
  show ((pending ++ Next.waiting request _).map Pending.request).Nodup
  rw [List.map_append, List.nodup_append]
  refine ⟨hnodup, ?_, ?_⟩
  · unfold Next.waiting
    split
    · exact List.nodup_singleton _
    · exact List.nodup_nil
  · intro r hr r' hr' heq
    obtain ⟨w, hw, rfl⟩ := List.mem_map.mp hr
    obtain ⟨w', hw', rfl⟩ := List.mem_map.mp hr'
    exact hsub w hw (heq.trans (mem_waiting.mp hw').2)

/-- A step keeps the invariant. -/
theorem HandlersInv.step (h : HandlersInv p s) {l : Label} (hstep : Steps p s l t) :
    HandlersInv p t := by
  cases h.turnCases hstep with
  | start text env ht =>
    subst ht
    have hother : ∀ w ∈ s.pending, w.request ≠ s.requests := fun w hw => (h.known w hw).ne
    refine
      { distinct := distinct_perform h.distinct hother
        known := fun w hw => ?_, logged := fun e he => ?_, handlers := fun r hr => ?_ }
    · rcases List.mem_append.mp hw with hw | hw
      · exact Nat.lt_succ_of_lt (h.known w hw)
      · rw [(mem_waiting.mp hw).2]
        exact Nat.lt_succ_self _
    · rcases List.mem_append.mp he with he | he
      · exact Nat.lt_succ_of_lt (h.logged e he)
      · rw [List.mem_singleton.mp he]
        exact Nat.lt_succ_self _
    · rcases Nat.lt_succ_iff_lt_or_eq.mp hr with hlt | rfl
      · apply (h.handlers r hlt).perform hlt.ne'
        exact fun w => ⟨fun hw => ⟨hw, hother w hw⟩, And.left⟩
      · -- the new request begins
        apply HandlerState.performed hother
        intro next hresult
        obtain ⟨ctx, -, hstart⟩ := handle_calls text (s := s.store) next hresult
        rw [h.callsFor_eq_nil (Nat.le_refl _)]
        exact hstart.answers.imp (fun ⟨hdone, hnil⟩ => ⟨hdone, rfl, hnil⟩) id
  | resume index env timeout waiting pending hindex hsub hnodup ht =>
    subst ht
    have hwaiting : waiting ∈ s.pending := List.mem_of_getElem? hindex
    have hother : ∀ w ∈ pending, w.request ≠ waiting.request := fun w hw => ((hsub w).mp hw).2
    refine
      { distinct := distinct_perform hnodup hother
        known := fun w hw => ?_, logged := fun e he => ?_, handlers := fun r hr => ?_ }
    · rcases List.mem_append.mp hw with hw | hw
      · exact h.known w ((hsub w).mp hw).1
      · rw [(mem_waiting.mp hw).2]
        exact h.known waiting hwaiting
    · rcases List.mem_append.mp he with he | he
      · exact h.logged e he
      · rw [List.mem_singleton.mp he]
        exact h.known waiting hwaiting
    · by_cases hr' : waiting.request = r
      · subst hr'
        -- the handler goes on with what it has begun
        cases h.handlers waiting.request hr with
        | threw h =>
          obtain ⟨e, he, hthrew⟩ := h
          exact .threw ⟨e, List.mem_append_left _ he, hthrew⟩
        | done hwaits => exact absurd ⟨waiting, hwaiting, rfl⟩ hwaits
        | @waits w hw hrequest hanswers =>
          obtain rfl : w = waiting := List.inj_on_of_nodup_map h.distinct hw hwaiting hrequest
          apply HandlerState.performed hother
          intro next hresult
          cases hanswers with
          | await next' hresult' hrest =>
            obtain rfl := Option.some.inj ((hresult' env s.store).symm.trans hresult)
            exact .inr (hrest env s.store)
      · exact (h.handlers r hr).perform hr' hsub

/-- The data files may change. -/
theorem HandlersInv.files (h : HandlersInv p s) (store : Store) :
    HandlersInv p { s with store := store } where
  distinct := h.distinct
  known := h.known
  logged := h.logged
  handlers := fun r hr => by
    cases h.handlers r hr with
    | threw h => exact .threw h
    | waits hw hrequest h => exact .waits hw hrequest h
    | done hwaits h => exact .done hwaits h

/-- While no handler has thrown, none that waits throws when it goes on. -/
theorem HandlersInv.resume_result (h : HandlersInv p s) (hthrew : s.threw = false)
    {waiting : Pending} (hwaiting : waiting ∈ s.pending) (env : Env) :
    ∃ next, ((waiting.await.resume p).run env s.store).result = some next := by
  cases h.handlers waiting.request (h.known waiting hwaiting) with
  | threw h => exact absurd h (not_threw hthrew _)
  | done hwaits => exact absurd ⟨waiting, hwaiting, rfl⟩ hwaits
  | @waits w hw hrequest hanswers =>
    obtain rfl : w = waiting := List.inj_on_of_nodup_map h.distinct hw hwaiting hrequest
    cases hanswers with
    | await next hresult => exact ⟨_, hresult env s.store⟩

end Handlers

/-! ## In order -/

/-- The order on a socket: what has been written for it is sorted by requests, and nothing
is written for a request while an earlier one waits. -/
structure TurnInv (dates : ℕ → UTCString) (mine : ℕ → Bool) (s : Process) : Prop where
  sorted : ((s.writes dates).filter fun w => mine w.request).Pairwise
    fun w w' => w.request ≤ w'.request
  ended : ∀ r r', mine r → mine r' → r < r' → s.callsFor r' ≠ [] → ¬s.Waits r

theorem turnInv_forked (dates : ℕ → UTCString) (mine : ℕ → Bool) (store : Store) :
    TurnInv dates mine (.forked store) where
  sorted := List.Pairwise.nil
  ended := fun _ _ _ _ _ h => absurd rfl h

section Turn

variable {p : Platform} {s t : Process} {dates : ℕ → UTCString} {mine : ℕ → Bool} {l : Label}

/-- A stretch keeps the order if nothing that it writes overtakes a handler that waits, or
comes behind a later response. -/
theorem TurnInv.perform (h : TurnInv dates mine s) {env : Env} {request : ℕ} {task : Task}
    {pending : List Pending} {requests : ℕ}
    (hsub : ∀ w ∈ pending, w ∈ s.pending)
    (hlater : ∀ r, mine request → mine r → request < r → s.callsFor r = [])
    (hturn : callsOf ((task.prog p).run env s.store).effects ≠ [] → mine request →
      ∀ r < request, mine r → ¬s.Waits r) :
    TurnInv dates mine (s.perform p env request task pending requests) := by
  have hstays : ∀ r, (∃ w ∈ pending, w.request = r) → s.Waits r :=
    fun r ⟨w, hw, hr⟩ => ⟨w, hsub w hw, hr⟩
  constructor
  · rw [writes_perform, List.filter_append, List.pairwise_append]
    refine ⟨h.sorted, ?_, ?_⟩
    · -- the new writes are for one request
      rw [List.pairwise_filter, List.pairwise_map]
      exact List.pairwise_of_forall fun _ _ _ _ => Nat.le_refl _
    · intro w hw w' hw'
      obtain ⟨hw, hmine⟩ := List.mem_filter.mp hw
      obtain ⟨hw', hmine'⟩ := List.mem_filter.mp hw'
      obtain ⟨c, -, rfl⟩ := List.mem_map.mp hw'
      apply Nat.le_of_not_lt
      exact fun hlt => callsFor_ne_nil hw (hlater _ hmine' hmine hlt)
  · intro r r' hr hr' hlt hcalls hwaits
    rw [callsFor_perform] at hcalls
    rcases waits_perform.mp hwaits with hold | ⟨rfl, -⟩
    · by_cases hwrote : s.callsFor r' = []
      · -- the stretch is the first one to write for its request
        rw [hwrote, List.nil_append] at hcalls
        split at hcalls
        · rename_i heq
          subst heq
          exact hturn hcalls hr' r hlt hr (hstays r hold)
        · exact hcalls rfl
      · exact h.ended r r' hr hr' hlt hwrote (hstays r hold)
    · rw [if_neg hlt.ne, List.append_nil] at hcalls
      exact hcalls (hlater r' hr hr' hlt)

/-- A step in turn keeps the order. -/
theorem TurnInv.step {w : WorkerProcess} (h : TurnInv dates mine w.process)
    (hinv : HandlersInv p w.process) (hguard : InTurn p mine w (.step l))
    (hstep : Steps p w.process l t) : TurnInv dates mine t := by
  cases hinv.turnCases hstep with
  | start text env ht =>
    subst ht
    apply h.perform fun w hw => hw
    · -- no later request has come in, so nothing is written for one
      exact fun r _ _ hlt => hinv.callsFor_eq_nil hlt.le
    · intro hcalls hmine r _ hr hwaits
      -- while a handler of the socket waits, the new one holds back
      obtain ⟨hhandled, hholds⟩ := hguard.1 ⟨r, hr, hwaits⟩
      obtain ⟨router, hrouter⟩ := Option.isSome_iff_exists.mp hhandled.served
      obtain ⟨ctx, hparse, -⟩ := hhandled.parsed
      exact hcalls ((hholds hmine ctx hparse).callsOf_eq_nil hrouter hparse)
  | resume index env timeout waiting pending hindex hsub hnodup ht =>
    subst ht
    have hwaiting : w.process.Waits waiting.request := ⟨waiting, List.mem_of_getElem? hindex, rfl⟩
    apply h.perform fun w hw => ((hsub w).mp hw).1
    · intro r hmine hr hlt
      -- what is written for a later request has ended this one before
      by_contra hwrote
      exact h.ended waiting.request r hmine hr hlt hwrote hwaiting
    · exact fun _ => hguard waiting hindex

/-- A worker in turn: besides the order on the socket, its end has not cut off anything there. -/
structure WorkerInv (p : Platform) (dates : ℕ → UTCString) (mine : ℕ → Bool) (w : WorkerProcess) :
    Prop where
  handlers : HandlersInv p w.process
  turn : TurnInv dates mine w.process
  living : w.ended = false → w.process.threw = false
  idle : w.ended → ¬w.process.Busy mine
  unwritten : ∀ r, mine r → w.process.Threw r → w.process.callsFor r = []

theorem workerInv_forked (store : Store) : WorkerInv p dates mine (.forked store) where
  handlers := handlersInv_forked store
  turn := turnInv_forked dates mine store
  living := fun _ => rfl
  idle := fun hended => nomatch hended
  unwritten := fun _ _ ⟨_, he, _⟩ => absurd he List.not_mem_nil

/-- A request that comes in may be the end of the worker, but of nothing on the socket. -/
theorem WorkerInv.start {w : WorkerProcess} (h : WorkerInv p dates mine w)
    (hthrew : w.process.threw = false) {text : JsString} {env : Env}
    (hguard : InTurn p mine w (.step (.request text env))) {t : Process}
    (ht : t = w.process.perform p env w.process.requests (.start text) w.process.pending
      (w.process.requests + 1)) :
    (t.threw → ¬t.Busy mine) ∧ ∀ r, mine r → t.Threw r → t.callsFor r = [] := by
  subst ht
  have hnew : ∀ r, Process.Threw (w.process.perform p env w.process.requests (.start text)
      w.process.pending (w.process.requests + 1)) r →
      w.process.requests = r ∧ ((handle p text).run env w.process.store).result = none :=
    fun r hr => (threw_perform.mp hr).resolve_left (not_threw hthrew r)
  constructor
  · rintro hend ⟨r, hmine, hwaits⟩
    obtain ⟨r', hr'⟩ := threw_iff.mp hend
    obtain ⟨-, hresult⟩ := hnew r' hr'
    rcases waits_perform.mp hwaits with hold | ⟨-, a, hawait⟩
    · -- while the socket is busy only requests that do not throw come in
      obtain ⟨next, hnext⟩ := (hguard.1 ⟨r, hmine, hold⟩).1.exists_result env
      cases hnext.symm.trans hresult
    · cases hawait.symm.trans hresult
  · intro r hmine hr
    obtain ⟨rfl, hresult⟩ := hnew r hr
    rw [callsFor_perform, if_pos rfl, h.handlers.callsFor_eq_nil (Nat.le_refl _), List.nil_append]
    exact (hguard.2 hmine).callsOf_eq_nil hresult

/-- A handler that goes on does not end the worker. -/
theorem WorkerInv.resume {w : WorkerProcess} (h : WorkerInv p dates mine w)
    (hthrew : w.process.threw = false) {waiting : Pending} {env : Env} {pending : List Pending}
    {requests : ℕ} (hwaiting : waiting ∈ w.process.pending) (r : ℕ) :
    ¬(w.process.perform p env waiting.request (.resume waiting.await) pending requests).Threw r := by
  rw [threw_perform, not_or, not_and]
  refine ⟨not_threw hthrew r, fun _ hresult => ?_⟩
  obtain ⟨next, hnext⟩ := h.handlers.resume_result hthrew hwaiting env
  cases hnext.symm.trans hresult

/-- A step in turn of a worker keeps the invariant. -/
theorem WorkerInv.step {w w' : WorkerProcess} {l : WorkerLabel} (h : WorkerInv p dates mine w)
    (hstep : Guarded (InTurn p mine) (LivingSteps p) w l w') : WorkerInv p dates mine w' := by
  obtain ⟨hguard, hstep⟩ := hstep
  obtain ⟨hended, hcases⟩ := livingCases hstep
  have hthrew := h.living hended
  cases hcases with
  | files store =>
    exact
      { handlers := h.handlers.files store, turn := ⟨h.turn.sorted, h.turn.ended⟩
        living := h.living, idle := h.idle, unwritten := h.unwritten }
  | exit => exact { h with living := nofun, idle := fun _ => hguard }
  | @step l t hmoves =>
    have hends : (t.threw → ¬t.Busy mine) ∧ ∀ r, mine r → t.Threw r → t.callsFor r = [] := by
      cases h.handlers.turnCases hmoves with
      | start text env ht => exact h.start hthrew hguard ht
      | resume index env timeout waiting pending hindex _ _ ht =>
        subst ht
        -- behind an `await` no handler throws any more
        have hnone : ∀ r, ¬Process.Threw (w.process.perform p env waiting.request
            (.resume waiting.await) pending w.process.requests) r :=
          h.resume hthrew (List.mem_of_getElem? hindex)
        refine ⟨fun hend => ?_, fun r _ hr => absurd hr (hnone r)⟩
        obtain ⟨r, hr⟩ := threw_iff.mp hend
        exact absurd hr (hnone r)
    exact
      { handlers := h.handlers.step hmoves, turn := h.turn.step h.handlers hguard hmoves
        living := id, idle := hends.1, unwritten := hends.2 }

/-- What the requests of a socket have contributed, out of all requests. -/
theorem flatMap_filter_mine {β : Type} (f : ℕ → List β) (l : List ℕ) :
    (l.filter mine).flatMap f = l.flatMap fun r => if mine r then f r else [] := by
  induction l with
  | nil => rfl
  | cons r l ih =>
    rw [List.flatMap_cons, ← ih, List.filter_cons]
    by_cases hr : mine r
    · rw [if_pos hr, if_pos hr, List.flatMap_cons]
    · rw [if_neg hr, if_neg hr, List.nil_append]

/-- The bytes of a sorted socket. -/
theorem TurnInv.bytes (h : TurnInv dates mine s) (hinv : HandlersInv p s) :
    s.socketBytes dates mine =
      ((List.range s.requests).filter mine).flatMap (s.responseBytes dates) := by
  -- the socket is a sorted log, which falls into what each request has written
  have hknown : ∀ w ∈ (s.writes dates).filter (fun w => mine w.request), w.request < s.requests := by
    intro w hw
    apply Nat.lt_of_not_le
    exact fun hle => callsFor_ne_nil (List.mem_filter.mp hw).1 (hinv.callsFor_eq_nil hle)
  rw [Process.socketBytes, eq_flatMap_filter h.sorted hknown, List.flatMap_assoc,
    flatMap_filter_mine]
  apply List.flatMap_congr
  intro r _
  rw [List.filter_filter, Process.responseBytes]
  by_cases hr : mine r
  · rw [if_pos hr]
    congr 1
    apply List.filter_congr
    intro w _
    by_cases hw : w.request = r
    · simp [hw, hr]
    · simp [hw]
  · rw [if_neg hr, List.filter_eq_nil_iff.mpr, List.flatMap_nil]
    intro w _ hw
    simp only [Bool.and_eq_true, decide_eq_true_iff] at hw
    exact hr (hw.1 ▸ hw.2)

/-- **Responses stay in order** in every run whose steps are in turn: the bytes on the
socket are the responses in the order in which their requests have arrived, each of them
complete before the next one begins, and none of them is left unfinished when the worker
ends. -/
theorem inOrder_of_inTurn {w : WorkerProcess} {store : Store} {ls : List WorkerLabel}
    (hrun : Run (Guarded (InTurn p mine) (LivingSteps p)) (WorkerProcess.forked store) ls w) :
    InOrder dates mine w := by
  have h : WorkerInv p dates mine w :=
    hrun.invariant (workerInv_forked store) fun _ _ _ h hstep => h.step hstep
  refine { bytes := h.turn.bytes h.handlers, ended := h.turn.ended, complete := ?_ }
  intro r hr hmine
  by_cases hwaits : w.process.Waits r
  · -- a handler of the socket waits only while the worker lives
    have hliving : w.ended = false :=
      Bool.eq_false_of_not_eq_true fun hended => h.idle hended ⟨r, hmine, hwaits⟩
    exact .inr (.inl ⟨hliving, hwaits⟩)
  · -- a handler that has thrown on the socket has written nothing
    cases h.handlers.handlers r hr with
    | threw hthrew => exact .inr (.inr ⟨h.unwritten r hmine hthrew, hwaits⟩)
    | waits hw hrequest => exact absurd ⟨_, hw, hrequest⟩ hwaits
    | done _ h => exact h.elim (fun hnone => .inr (.inr ⟨hnone, hwaits⟩)) .inl

end Turn

/-! ## Sample runs -/

/-- A page of the static files. -/
def pageRequest : JsString := sampleRequest "GET" "/chat.html" [] []

/-- A page that is not there, which is answered at once. -/
def missingRequest : JsString := sampleRequest "GET" "/missing" [] []

/-- A registration, whose handler waits for its digest before it writes. -/
def registrationRequest : JsString :=
  sampleRequest "POST" "/register" [] (js "username=alice&password=password1")

/-- While a page is sent on the socket, another socket asks for one that is not there and a
registration comes in on the socket, which goes on when the page is complete. -/
def turnRequests : List WorkerLabel :=
  [.step (.request pageRequest sampleEnv), .step (.request missingRequest sampleEnv),
    .step (.request registrationRequest sampleEnv), .step (.resume 0 sampleEnv false),
    .step (.resume 1 sampleEnv false), .step (.resume 0 sampleEnv false)]

/-- A request that is not for `/reflect`. -/
theorem reflects_of_path {p : Platform} {text path : JsString}
    (hparse : (parse p text).map (fun ctx => ctx.path.pathname) = some path)
    (hpath : path ≠ js "/reflect") : Reflects p text := by
  intro ctx hctx hreflect
  rw [hctx] at hparse
  exact absurd ((Option.some.inj hparse).symm.trans hreflect) hpath

/-- A request for a path without a route does not throw. -/
theorem handled_of_path {p : Platform} {text path : JsString} {users : UserTable}
    (hserved : (makeRouter p).isSome)
    (hparse : (parse p text).map (fun ctx => ctx.path.pathname) = some path)
    (hpath : ∀ route : Route, path ≠ route.path) : Handled p users text := by
  obtain ⟨ctx, hctx, rfl⟩ := Option.map_eq_some_iff.mp hparse
  exact ⟨hserved, ctx, hctx, fun route heq => absurd heq (hpath route)⟩

theorem inTurn_registration {mine : ℕ → Bool} {w : WorkerProcess} {env : Env}
    (husers : w.process.store.users = Dict.empty) :
    InTurn samplePlatform mine w (.step (.request registrationRequest env)) := by
  have hfields : (parse samplePlatform registrationRequest).map (fun ctx =>
      decide (ctx.path.pathname = js "/register" ∧ ctx.method = js "POST" ∧
        getUser Dict.empty ctx.userCookie = none ∧
        field ctx.form (js "username") = some (js "alice") ∧
        field ctx.form (js "password") = some (js "password1"))) = some true := by decide +kernel
  obtain ⟨ctx, hctx, hdecide⟩ := Option.map_eq_some_iff.mp hfields
  obtain ⟨hpath, hpost, hcookie, husername, hpassword⟩ := of_decide_eq_true hdecide
  have hstarts : StartsRegistration Dict.empty ctx (js "alice") (js "password1") :=
    { path := hpath, method := hpost, usernameField := husername, loggedOut := hcookie
      usernameLength := by decide, passwordField := hpassword, passwordLength := by decide
      notGpt := by decide, free := rfl }
  refine ⟨fun _ => ⟨⟨by decide +kernel, ctx, hctx, fun route hroute => .inl ?_⟩, fun _ ctx' hctx' => ?_⟩,
    fun _ => reflects_of_path (Option.map_eq_some_iff.mpr ⟨ctx, hctx, hpath⟩) (by decide)⟩
  · -- the path is that of one route only
    obtain rfl : route = .register := by
      rw [hpath] at hroute
      cases route <;> first | rfl | exact absurd hroute (by decide)
    exact fun _ _ => ⟨_, husername, fun _ => by rw [hpassword]; rfl⟩
  · obtain rfl := Option.some.inj (hctx.symm.trans hctx')
    exact .registration (husers ▸ hstarts)

/-- Whether the handlers that wait let one of them go on. -/
theorem inTurn_resume {p : Platform} {mine : ℕ → Bool} {w : WorkerProcess} {index : ℕ} {env : Env}
    {timeout : Bool} {rs : List ℕ} (hpending : w.process.pending.map Pending.request = rs)
    (h : ∀ r ∈ rs[index]?, ∀ r' ∈ rs, r' < r → ¬mine r') :
    InTurn p mine w (.step (.resume index env timeout)) := by
  subst hpending
  rintro waiting hindex - r hlt hr ⟨w', hw', rfl⟩
  refine h waiting.request ?_ w'.request (List.mem_map_of_mem hw') hlt hr
  rw [List.getElem?_map, hindex]
  rfl

/-- The page, the answer for the other socket and the redirect of the registration. -/
theorem inOrder_of_inTurn_page : ∃ w : WorkerProcess,
    Run (Guarded (InTurn samplePlatform (· ≠ 1)) (LivingSteps samplePlatform))
      (WorkerProcess.forked Store.initial) turnRequests w ∧
    (OneResponse (w.process.callsFor 0) ∧ OneResponse (w.process.callsFor 2)) ∧
    InOrder (fun _ => sampleDate) (· ≠ 1) w := by
  have hpage : (parse samplePlatform pageRequest).map (fun ctx => ctx.path.pathname) =
      some (js "/chat.html") := by decide +kernel
  have hmissing : (parse samplePlatform missingRequest).map (fun ctx => ctx.path.pathname) =
      some (js "/missing") := by decide +kernel
  have hserved : (makeRouter samplePlatform).isSome := by decide +kernel
  have hfirst : InTurn samplePlatform (· ≠ 1) (.forked Store.initial)
      (.step (.request pageRequest sampleEnv)) :=
    ⟨fun ⟨_, _, _, hw, _⟩ => absurd hw List.not_mem_nil,
      fun _ => reflects_of_path hpage (by decide)⟩
  have hother : ∀ w : WorkerProcess, w.process.requests = 1 →
      InTurn samplePlatform (· ≠ 1) w (.step (.request missingRequest sampleEnv)) := by
    intro w hrequests
    refine ⟨fun _ => ⟨handled_of_path hserved hmissing fun route => ?_, fun hmine => ?_⟩,
      fun _ => reflects_of_path hmissing (by decide)⟩
    · cases route <;> decide
    · simp [hrequests] at hmine
  let start := WorkerProcess.forked Store.initial
  let first := (start.step samplePlatform turnRequests[0]).get (by decide +kernel)
  let second := (first.step samplePlatform turnRequests[1]).get (by decide +kernel)
  let third := (second.step samplePlatform turnRequests[2]).get (by decide +kernel)
  let fourth := (third.step samplePlatform turnRequests[3]).get (by decide +kernel)
  let fifth := (fourth.step samplePlatform turnRequests[4]).get (by decide +kernel)
  let sixth := (fifth.step samplePlatform turnRequests[5]).get (by decide +kernel)
  have hthird : third.process.pending.map Pending.request = [0, 2] := by decide +kernel
  have hfourth : fourth.process.pending.map Pending.request = [2, 0] := by decide +kernel
  have hfifth : fifth.process.pending.map Pending.request = [2] := by decide +kernel
  have hrun : Run (Guarded (InTurn samplePlatform (· ≠ 1)) (LivingSteps samplePlatform))
      start turnRequests sixth :=
    (((((Run.single ⟨hfirst, (Option.some_get _).symm⟩).snoc
      ⟨hother _ (by decide +kernel), (Option.some_get _).symm⟩).snoc
      ⟨inTurn_registration rfl, (Option.some_get _).symm⟩).snoc
      ⟨inTurn_resume hthird (by decide), (Option.some_get _).symm⟩).snoc
      ⟨inTurn_resume hfourth (by decide), (Option.some_get _).symm⟩).snoc
      ⟨inTurn_resume hfifth (by decide), (Option.some_get _).symm⟩
  have hinOrder : InOrder (fun _ => sampleDate) (· ≠ 1) sixth := inOrder_of_inTurn hrun
  -- nothing waits any more, and both requests of the socket have been written for
  have hidle : sixth.process.pending.map Pending.request = [] := by decide +kernel
  have hnone : ∀ r, ¬sixth.process.Waits r := by
    rintro r ⟨w, hw, -⟩
    rw [List.map_eq_nil_iff.mp hidle] at hw
    exact List.not_mem_nil hw
  have hrequests : sixth.process.requests = 3 := by decide +kernel
  have hcomplete : ∀ r < sixth.process.requests, r ≠ 1 → sixth.process.callsFor r ≠ [] →
      OneResponse (sixth.process.callsFor r) := by
    intro r hr hmine hwrote
    rcases hinOrder.complete r hr (by simpa using hmine) with h | ⟨-, h⟩ | ⟨h, -⟩
    · exact h
    · exact absurd h (hnone r)
    · exact absurd h hwrote
  exact ⟨sixth, hrun, ⟨hcomplete 0 (by omega) (by decide) (by decide +kernel),
    hcomplete 2 (by omega) (by decide) (by decide +kernel)⟩, hinOrder⟩

/-- A page, and a second request that is answered before the page's first chunk is
there. -/
def pipelinedRequests : List WorkerLabel :=
  [.step (.request pageRequest sampleEnv), .step (.request missingRequest sampleEnv),
    .step (.resume 0 sampleEnv false)]

/-- The second response stands inside the first one. -/
theorem not_inOrder_pipelined :
    ¬∀ (p : Platform) (dates : ℕ → UTCString) (mine : ℕ → Bool) (store : Store)
      (ls : List WorkerLabel) (w : WorkerProcess), Lives p store ls w → InOrder dates mine w := by
  intro hinOrder
  have hrun : ((pipelinedRequests.foldlM (WorkerProcess.step samplePlatform)
      (WorkerProcess.forked Store.initial)).map fun w =>
      decide (w.process.socketBytes (fun _ => sampleDate) (fun _ => true) =
        ((List.range w.process.requests).filter fun _ => true).flatMap
          (w.process.responseBytes fun _ => sampleDate))) = some false := by decide +kernel
  obtain ⟨w, hw, hmixed⟩ := Option.map_eq_some_iff.mp hrun
  exact of_decide_eq_false hmixed (hinOrder _ _ _ _ _ w (Run.of_foldlM hw)).bytes

end NetworkServers.Phase2
