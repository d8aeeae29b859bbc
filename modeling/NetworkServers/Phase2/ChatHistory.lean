import NetworkServers.Phase2.Responses
import NetworkServers.Phase2.Sessions

/-!
# The Chat History

Of all stretches only a `POST /chat` that passes the session check adds a record; besides
the handlers, `gpt_reply` of `src/phase2/src/server/utils/gpt.ts` adds what the chatbot
answers. So the history only grows, and every record of it comes from one of the two.
-/

namespace NetworkServers.Phase2

open NetworkServers.Js NetworkServers.Runs
open Prog (require)

/-! ## Stretches without a record -/

/-- A stretch that adds no record, whatever the surroundings answer. -/
def Prog.KeepsChats {α : Type} : Prog α → Prop
  | .pure _ | .throw => True
  | .getUser _ k => ∀ u, (k u).KeepsChats
  | .setUser _ _ k => k.KeepsChats
  | .getChat k => ∀ chats, (k chats).KeepsChats
  | .addChat _ _ => False
  | .randomUUID k => ∀ uuid, (k uuid).KeepsChats
  | .now k => ∀ time, (k time).KeepsChats
  | .call _ k => k.KeepsChats
  | .startGpt k => k.KeepsChats

section KeepsChats

variable {α : Type}

theorem Prog.KeepsChats.run {prog : Prog α} (h : prog.KeepsChats) (env : Env) (s : Store) :
    (prog.run env s).store.chats = s.chats := by
  induction prog generalizing s with
  | pure a | throw => rfl
  | addChat chat k ih => exact h.elim
  | getUser id k ih | getChat k ih => exact ih _ (h _) s
  | randomUUID k ih => exact ih _ (h _) s
  | now k ih => exact ih _ (h _) s
  | setUser id user k ih => exact ih h { s with users := Phase2.setUser s.users id user }
  | call c k ih | startGpt k ih => exact ih h s

/-- Everything but adding a record. -/
def addsNothing : Rules where
  found := fun _ _ => True
  stored := fun _ _ => True
  added := fun _ => False
  drawn := True

/-- Adding no record is keeping to rules. -/
theorem Prog.KeepsChats.of_obeys {Q : α → Prop} {prog : Prog α} (h : prog.Obeys addsNothing Q) :
    prog.KeepsChats := by
  induction prog with
  | pure a | throw => trivial
  | getUser id k ih => exact fun u => ih u (h u trivial)
  | getChat k ih => exact fun chats => ih chats (h chats)
  | addChat chat k ih => exact h.1.elim
  | randomUUID k ih => exact fun uuid => ih uuid (h.2 uuid)
  | now k ih => exact fun time => ih time (h time)
  | setUser id user k ih => exact ih h.2
  | call c k ih | startGpt k ih => exact ih h

variable {p : Platform}

theorem resume_keepsChats (a : Await) : (a.resume p).KeepsChats := by
  apply Prog.KeepsChats.of_obeys (Q := fun _ => True)
  cases a with
  | register username password => exact registerDigest_obeys trivial trivial
  | login username password u => exact loginDigest_obeys trivial trivial fun _ _ => trivial
  | stream chunks => exact streamNext_obeys _ trivial fun _ => trivial
  | changed size => exact changedNext_obeys _ trivial

end KeepsChats

/-! ## The stretch with a record -/

/-- A `POST /chat` that passes the session check with the record `u`, and whose message can
be decoded. -/
structure PostRequest (p : Platform) (users : UserTable) (text : JsString) (ctx : HTTPContext)
    (u : UserData) (message : JsString) : Prop where
  parsed : parse p text = some ctx
  served : (makeRouter p).isSome
  path : ctx.path.pathname = js "/chat"
  found : getUser users ctx.userCookie = some u
  session : ctx.tokenCookie = u.token
  method : ctx.method = js "POST"
  message : postedMessage ctx = some message

section Handle

variable {p : Platform} {router : Router} {ctx : HTTPContext}

/-- What `chatroom` does to the history, behind its check. -/
theorem serveChat_chats (u : UserData) (env : Env) (s : Store) :
    (∃ message, ctx.method = js "POST" ∧ postedMessage ctx = some message ∧
      ((serveChat p router ctx u).run env s).store.chats =
        s.chats ++ [{ user := u.id, message := message, timestamp := env.now }]) ∨
    (¬(ctx.method = js "POST" ∧ (postedMessage ctx).isSome) ∧
      ((serveChat p router ctx u).run env s).store.chats = s.chats) := by
  by_cases hpost : ctx.method = js "POST"
  · have hget : ¬ctx.method = js "GET" := fun h => absurd (hpost.symm.trans h) (by decide)
    simp only [serveChat, if_neg hget, if_pos hpost]
    cases hmessage : postedMessage ctx with
    | none => exact .inr ⟨fun h => Bool.false_ne_true h.2, rfl⟩
    | some message =>
      refine .inl ⟨message, hpost, rfl, ?_⟩
      simp only [Prog.run_bind, run_require_some, run_dateNow, run_chatAdd]
      split <;> rfl
  · -- without POST the history is only read
    refine .inr ⟨fun h => hpost h.1, ?_⟩
    apply Prog.KeepsChats.run
    unfold serveChat
    split
    · apply Prog.KeepsChats.of_obeys (Q := fun _ => True)
      simp only [obeys_bind, obeys_chatGet]
      intro chats
      split
      · split <;> trivial
      · trivial
    · trivial

/-- The handlers of the other routes add no record. -/
theorem handler_keepsChats {route : Route} (h : route ≠ .chatroom) :
    (route.handler p router ctx).KeepsChats := by
  apply Prog.KeepsChats.of_obeys (Q := fun _ => True)
  cases route with
  | reflect => exact reflect_obeys trivial
  | computeSqrt => exact computeSqrt_obeys trivial
  | register => exact register_obeys trivial (fun _ => trivial) fun _ _ _ _ _ _ _ _ _ _ => trivial
  | login => exact login_obeys trivial (fun _ => trivial) fun _ _ _ _ => trivial
  | logout => exact logout_obeys trivial fun _ _ _ => trivial
  | chatroom => exact absurd rfl h
  | chatStatus =>
    exact withSession_obeys trivial fun u _ _ => serveChatStatus_obeys u trivial fun _ => trivial

theorem handle_keepsChats {text : JsString} (h : ∀ ctx, parse p text = some ctx →
    (makeRouter p).isSome → ctx.path.pathname ≠ js "/chat") : (handle p text).KeepsChats := by
  unfold handle
  cases hparse : parse p text with
  | none => trivial
  | some ctx =>
    cases hrouter : makeRouter p with
    | none => trivial
    | some router =>
      have hpath := h ctx hparse (by rw [hrouter]; rfl)
      show (router.handle p ctx).KeepsChats
      unfold Router.handle
      cases hroute : router.overrides.get? ctx.path.pathname with
      | none =>
        apply Prog.KeepsChats.of_obeys (Q := fun _ => True)
        exact serveStatic_obeys _ trivial fun _ => trivial
      | some route =>
        apply handler_keepsChats
        rintro rfl
        exact hpath ((overrides_eq_some_iff hrouter _ .chatroom).mp hroute)

/-- **What a request does to the history**: it adds one record or none. -/
theorem handle_chats (text : JsString) (env : Env) (s : Store) :
    (∃ ctx u message, PostRequest p s.users text ctx u message ∧
      ((handle p text).run env s).store.chats =
        s.chats ++ [{ user := u.id, message := message, timestamp := env.now }]) ∨
    ((∀ ctx u message, ¬PostRequest p s.users text ctx u message) ∧
      ((handle p text).run env s).store.chats = s.chats) := by
  by_cases hchat : ∃ ctx, parse p text = some ctx ∧ (makeRouter p).isSome ∧
      ctx.path.pathname = js "/chat"
  · obtain ⟨ctx, hparse, hserved, hpath⟩ := hchat
    obtain ⟨router, hrouter⟩ := Option.isSome_iff_exists.mp hserved
    have hrequest : SessionRequest p text ctx (serveChat p router ctx) :=
      ⟨hparse, router, hrouter, .inl ⟨hpath, rfl⟩⟩
    have hctx : ∀ {ctx' u message}, PostRequest p s.users text ctx' u message → ctx' = ctx :=
      fun h => Option.some.inj (h.parsed.symm.trans hparse)
    rw [hrequest.handle_run]
    -- the session check passes, or the request is redirected
    rcases withSession_run ctx (serveChat p router ctx) env s with
      ⟨u, hfound, hsession, hrun⟩ | ⟨hfails, url, headers, hrun⟩
    · rw [hrun]
      rcases serveChat_chats u env s with ⟨message, hmethod, hmessage, hchats⟩ | ⟨hno, hchats⟩
      · exact .inl ⟨ctx, u, message,
          ⟨hparse, hserved, hpath, hfound, hsession, hmethod, hmessage⟩, hchats⟩
      · refine .inr ⟨fun ctx' u' message h => hno ?_, hchats⟩
        obtain rfl := hctx h
        exact ⟨h.method, by rw [h.message]; rfl⟩
    · rw [hrun]
      refine .inr ⟨fun ctx' u' message h => hfails ?_, rfl⟩
      obtain rfl := hctx h
      exact ⟨u', h.found, h.session⟩
  · -- no other route adds a record
    refine .inr ⟨fun ctx u message h => hchat ⟨ctx, h.parsed, h.served, h.path⟩, ?_⟩
    apply Prog.KeepsChats.run
    exact handle_keepsChats fun ctx hparse hserved hpath => hchat ⟨ctx, hparse, hserved, hpath⟩

end Handle

/-! ## Runs with the chatbot -/

/-- A step of a process, or the record that `gpt_reply` adds when it has got an answer. -/
inductive ChatEvent where
  | handler (l : Label)
  | gptReply (message : JsString) (now : ℕ)

/-- The record with an answer of the chatbot. The `content` of the answer is taken to be a text;
where it were `null` or missing, the record would be stored with that. -/
def gptRecord (message : JsString) (now : ℕ) : ChatData :=
  { user := some (js "GPT"), message := message, timestamp := now }

/-- One step. The answer of the chatbot may be anything, and come at any time. -/
def Process.chatStep (p : Platform) (s : Process) : ChatEvent → Option Process
  | .handler l => s.step p l
  | .gptReply message now =>
    some { s with store := { s.store with
                             chats := addChat s.store.chats (gptRecord message now) } }

/-- The steps as a relation. -/
def ChatSteps (p : Platform) (s : Process) (l : ChatEvent) (t : Process) : Prop :=
  s.chatStep p l = some t

/-- **Runs** from empty data files, with the chatbot. -/
abbrev ChatReaches (p : Platform) (ls : List ChatEvent) (s : Process) : Prop :=
  Run (ChatSteps p) Process.initial ls s

/-- **What a step does to the history**: it adds the record of a posted message, or one of
the chatbot, or none. -/
inductive ChatsAfter (p : Platform) (s : Process) : ChatEvent → List ChatData → Prop where
  | posted {text : JsString} {env : Env} {ctx : HTTPContext} {u : UserData} {message : JsString}
      (h : PostRequest p s.store.users text ctx u message) :
      ChatsAfter p s (.handler (.request text env))
        (s.store.chats ++ [{ user := u.id, message := message, timestamp := env.now }])
  | request {text : JsString} {env : Env}
      (h : ∀ ctx u message, ¬PostRequest p s.store.users text ctx u message) :
      ChatsAfter p s (.handler (.request text env)) s.store.chats
  | resume {index : ℕ} {env : Env} {timeout : Bool} :
      ChatsAfter p s (.handler (.resume index env timeout)) s.store.chats
  | gptReply {message : JsString} {now : ℕ} : ChatsAfter p s (.gptReply message now)
      (s.store.chats ++ [gptRecord message now])

theorem chatsAfter {p : Platform} {s t : Process} {l : ChatEvent} (h : ChatSteps p s l t) :
    ChatsAfter p s l t.store.chats := by
  cases l with
  | gptReply message now =>
    obtain rfl := Option.some.inj h
    exact .gptReply
  | handler l =>
    cases stepCases (show Steps p s l t from h) with
    | start text env ht =>
      obtain rfl := ht
      rcases handle_chats text env s.store with ⟨ctx, u, message, hpost, hchats⟩ | ⟨hno, hchats⟩
      · exact hchats ▸ .posted hpost
      · exact hchats ▸ .request hno
    | resume index env timeout waiting pending _ ht =>
      obtain rfl := ht
      have hchats := (resume_keepsChats (p := p) waiting.await).run env s.store
      exact hchats ▸ .resume

end NetworkServers.Phase2
