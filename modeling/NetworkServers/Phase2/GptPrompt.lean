import NetworkServers.Phase2.DataFiles
import NetworkServers.Phase2.UserRecords

/-!
# The Prompt of the Chatbot

Translation of `gpt_reply` of `src/phase2/src/server/utils/gpt.ts` up to its request, with
`get_chat` for a range. The service reads the body as JSON. A user of the chat can put text into
messages with the role `user` only, behind the name of the session that it has posted them with;
what stands there with the role `assistant` has been said by the chatbot.
-/

namespace NetworkServers.Phase2

open NetworkServers.Js NetworkServers.Runs

/-! ## The request -/

/-- `array.slice(start, stop)`; a negative index counts from the end. -/
def arraySlice {α : Type} (xs : List α) (start stop : Option ℤ) : List α :=
  let index (i : ℤ) : ℕ := (if i < 0 then i + xs.length else i).toNat
  (xs.take (stop.elim xs.length index)).drop (start.elim 0 index)

/-- `get_chat(from, to)`. -/
def getChatRange (chats : List ChatData) (start stop : Option ℤ) : List ChatData :=
  arraySlice chats start stop

/-- A message of the prompt. -/
structure PromptMessage where
  role : JsString
  content : JsString
deriving DecidableEq

/-- The message that stands in front. -/
def systemMessage : PromptMessage where
  role := js "system"
  content := js ("You are a chatbot in an online chatroom of Computer Network class. " ++
    "You are a humorous and curious bot named ProjectGPT. You are created by Jacob Lin, " ++
    "who is a NTNU student attending the Computer Network course.")

/-- The message for a chat record. -/
def promptMessage (c : ChatData) : PromptMessage :=
  if c.user = some (js "GPT") then { role := js "assistant", content := c.message }
  else { role := js "user", content := js "[" ++ display c.user ++ js "] " ++ c.message }

def PromptMessage.toJson (m : PromptMessage) : Json :=
  .object [(js "role", .string m.role), (js "content", .string m.content)]

/-- The arguments of `fetch`. -/
structure GptRequest where
  url : JsString
  method : JsString
  headers : List (JsString × JsString)
  body : JsString

/-- The body before it is rendered. -/
def promptJson (messages : List PromptMessage) : Json :=
  .object [(js "model", .string (js "gpt-3.5-turbo-1106")), (js "max_tokens", .number (js "512")),
    (js "messages", .array (messages.map PromptMessage.toJson))]

/-- `gpt_reply` up to its request; `none` where it makes none. -/
def gptRequest (apiKey : Option JsString) (chats : List ChatData) : Option GptRequest := do
  let key ← apiKey
  let chats := getChatRange chats (some (-10)) none
  if chats.length = 0 then none
  else
    some {
      url := js "https://api.openai.com/v1/chat/completions"
      method := js "POST"
      headers := [(js "Authorization", js "Bearer " ++ key),
        (js "Content-Type", js "application/json")]
      body := (promptJson (systemMessage :: chats.map promptMessage)).stringify }

/-! ## What the service reads -/

/-- A message of a prompt. -/
def PromptMessage.ofJson : Json → Option PromptMessage
  | .object properties => do
    let role ← (Json.getProperty properties (js "role")).bind stringOf
    let content ← (Json.getProperty properties (js "content")).bind stringOf
    return { role := role, content := content }
  | _ => none

/-- The messages of a prompt. -/
def readPrompt (body : JsString) : Option (List PromptMessage) := do
  match ← Json.parse body with
  | .object properties =>
    match ← Json.getProperty properties (js "messages") with
    | .array elements => elements.mapM PromptMessage.ofJson
    | _ => none
  | _ => none

theorem PromptMessage.toJson_valid (m : PromptMessage) : m.toJson.Valid := by
  apply Json.Valid.object
  · apply Json.enumerated_of_names
    · exact (by decide : [js "role", js "content"].Nodup)
    · exact (by decide : ∀ key ∈ [js "role", js "content"], Json.arrayIndex key = none)
  · intro property hproperty
    simp only [List.mem_cons, List.not_mem_nil, or_false] at hproperty
    rcases hproperty with rfl | rfl
    · exact .string _
    · exact .string _

theorem promptJson_valid (messages : List PromptMessage) : (promptJson messages).Valid := by
  apply Json.Valid.object
  · apply Json.enumerated_of_names
    · exact (by decide : [js "model", js "max_tokens", js "messages"].Nodup)
    · exact (by decide :
        ∀ key ∈ [js "model", js "max_tokens", js "messages"], Json.arrayIndex key = none)
  · intro property hproperty
    simp only [List.mem_cons, List.not_mem_nil, or_false] at hproperty
    rcases hproperty with rfl | rfl | rfl
    · exact .string _
    · exact .number (by decide)
    · apply Json.Valid.array
      intro v hv
      obtain ⟨m, -, rfl⟩ := List.mem_map.mp hv
      exact m.toJson_valid

theorem PromptMessage.ofJson_toJson (m : PromptMessage) : PromptMessage.ofJson m.toJson = some m := by
  have hkeys : js "role" ≠ js "content" := by decide
  simp [ofJson, toJson, Json.getProperty, hkeys, stringOf]

/-- The service reads the messages as they were made. -/
theorem readPrompt_stringify (messages : List PromptMessage) :
    readPrompt (promptJson messages).stringify = some messages := by
  have hkeys : js "model" ≠ js "messages" ∧ js "max_tokens" ≠ js "messages" := by decide
  have hmessages : (messages.map PromptMessage.toJson).mapM PromptMessage.ofJson = some messages := by
    induction messages with
    | nil => rfl
    | cons m messages ih => simp [List.mapM_cons, PromptMessage.ofJson_toJson, ih]
  rw [readPrompt, Json.parse_stringify (promptJson_valid messages)]
  simp [promptJson, Json.getProperty, hkeys, hmessages]

/-! ## The recent chats -/

/-- `get_chat()` is the whole history. -/
theorem getChatRange_all (chats : List ChatData) : getChatRange chats none none = getChat chats := by
  simp [getChatRange, arraySlice, getChat]

/-- `get_chat(-n)` is its end. -/
theorem getChatRange_last (chats : List ChatData) {n : ℕ} (hn : 0 < n) :
    getChatRange chats (some (-n)) none = chats.drop (chats.length - n) := by
  have hneg : (-n : ℤ) < 0 := by omega
  have hindex : (-n + chats.length : ℤ).toNat = chats.length - n := by omega
  simp only [getChatRange, arraySlice, Option.elim_none, Option.elim_some, List.take_length,
    if_pos hneg, hindex]

/-- What `gpt_reply` asks: nothing without a key or a chat, else the last ten chats. -/
theorem gptRequest_body {apiKey : Option JsString} {chats : List ChatData} {request : GptRequest}
    (h : gptRequest apiKey chats = some request) :
    chats ≠ [] ∧ readPrompt request.body =
      some (systemMessage :: (chats.drop (chats.length - 10)).map promptMessage) := by
  have hlast : getChatRange chats (some (-10)) none = chats.drop (chats.length - 10) :=
    getChatRange_last chats (n := 10) (by decide)
  obtain ⟨key, -, hrequest⟩ := Option.bind_eq_some_iff.mp h
  dsimp only at hrequest
  split at hrequest
  · cases hrequest
  · rename_i hne
    obtain rfl := Option.some.inj hrequest
    refine ⟨?_, ?_⟩
    · rintro rfl
      exact hne rfl
    · rw [readPrompt_stringify, hlast]

/-! ## Who has posted what -/

section Posts

variable {ω : Type} [DecidableEq ω]

/-- A table lookup that a read in the course of a run may have made. -/
def Looks (p : Platform) (ls : List (ClusterLabel ω)) (id : Option JsString)
    (found : Option UserData) : Prop :=
  ∃ (ms : List (ClusterLabel ω)) (t : Cluster ω), ms <+: ls ∧ ClusterReaches p ms t ∧
    getUser t.store.users id = found

/-- A request of a run posts a record: the user table that its session check has read has a
record for its cookie `user` with the token of its cookie `token`, and the chat record has the
`id` of that one as its user. -/
structure Posts (p : Platform) (ls : List (ClusterLabel ω)) (ctx : HTTPContext) (c : ChatData) :
    Prop where
  request : ∃ w text, ClusterLabel.request w text ∈ ls ∧ parse p text = some ctx
  session : ∃ u, Looks p ls ctx.userCookie (some u) ∧ ctx.tokenCookie = u.token ∧ c.user = u.id
  message : postedMessage ctx = some c.message

/-- Handlers of the run read its tables, and add what its requests post. -/
def postRules (p : Platform) (ls : List (ClusterLabel ω)) (origin : Origin) : Rules where
  found := Looks p ls
  stored := fun _ _ => True
  added := fun c => origin = .handler → ∃ ctx, Posts p ls ctx c
  drawn := True

variable {p : Platform} {ls ms : List (ClusterLabel ω)} {t t' : Cluster ω} {w : ω}

theorem handle_posts {text : JsString} (hrequest : ∃ w, ClusterLabel.request w text ∈ ls) :
    (handle p text).Obeys (postRules p ls .handler) fun _ => True := by
  simp only [handle, obeys_bind, obeys_require]
  intro ctx hparse router _
  unfold Router.handle
  split
  · rename_i route _
    cases route with
    | reflect => exact reflect_obeys trivial
    | computeSqrt => exact computeSqrt_obeys trivial
    | register => exact register_obeys trivial (fun _ => trivial) fun _ _ _ _ _ _ _ _ _ _ => trivial
    | login => exact login_obeys trivial (fun _ => trivial) fun _ _ _ _ => trivial
    | logout => exact logout_obeys trivial fun _ _ _ => trivial
    | chatroom =>
      -- the message is added under the record of the session check
      apply withSession_obeys trivial
      intro u hfound htoken
      apply serveChat_obeys u trivial
      intro message time hmessage _
      obtain ⟨w, hw⟩ := hrequest
      exact ⟨ctx, ⟨w, text, hw, hparse⟩, ⟨u, hfound, htoken, rfl⟩, hmessage⟩
    | chatStatus =>
      apply withSession_obeys trivial
      exact fun u _ _ => serveChatStatus_obeys u trivial fun _ => trivial
  · exact serveStatic_obeys _ trivial fun _ => trivial

theorem resume_posts (a : Await) :
    (a.resume p).Obeys (postRules p ls .handler) fun _ => True := by
  cases a with
  | register username password => exact registerDigest_obeys trivial trivial
  | login username password u => exact loginDigest_obeys trivial trivial fun _ _ => trivial
  | stream chunks => exact streamNext_obeys _ trivial fun _ => trivial
  | changed size => exact changedNext_obeys _ trivial

theorem gptReply_posts (message : JsString) (now : ℕ) :
    (gptReply message now).Obeys (postRules p ls .gptReply) fun _ => True := by
  simp only [gptReply, obeys_bind, obeys_chatAdd, obeys_pure]
  exact ⟨fun h => absurd h (by decide), trivial⟩

/-- What is left of a stretch adds what the requests of the run post. -/
def Stretch.Posts (p : Platform) (ls : List (ClusterLabel ω)) (stretch : Stretch) : Prop :=
  match stretch.remaining with
  | .prog k | .setUser _ _ _ k => k.Obeys (postRules p ls stretch.origin) fun _ => True
  | .addChat _ chat k => (postRules p ls stretch.origin).added chat ∧
      k.Obeys (postRules p ls stretch.origin) fun _ => True

/-- All records of handlers have been posted by requests of the run. -/
structure PostsInv (p : Platform) (ls : List (ClusterLabel ω)) (t : Cluster ω) : Prop where
  appended : ∀ c, (Origin.handler, c) ∈ t.appended → ∃ ctx, Posts p ls ctx c
  current : ∀ w stretch, (t.workers w).current = some stretch → stretch.Posts p ls

/-- A worker gets another stretch, or another part of the one it has. -/
theorem PostsInv.setWorker (h : PostsInv p ls t) {worker : Worker}
    (hworker : ∀ stretch, worker.current = some stretch → stretch.Posts p ls) :
    PostsInv p ls (t.setWorker w worker) where
  appended := h.appended
  current := (Function.forall_update_iff t.workers fun _ worker =>
    ∀ stretch, worker.current = some stretch → stretch.Posts p ls).mpr
      ⟨hworker, fun w' _ => h.current w'⟩

theorem PostsInv.continue (h : PostsInv p ls t) {origin : Origin} {remaining : Remaining}
    (hposts : Stretch.Posts p ls { origin := origin, remaining := remaining }) :
    PostsInv p ls (t.continue w origin remaining) :=
  h.setWorker fun _ hcurrent => Option.some.inj hcurrent ▸ hposts

theorem PostsInv.take (h : PostsInv p ls t) {origin : Origin} {prog : Prog Next}
    {waiting : List Await} (hprog : prog.Obeys (postRules p ls origin) fun _ => True)
    (hstep : t.take w origin prog waiting = some t') : PostsInv p ls t' := by
  unfold Cluster.take at hstep
  split at hstep
  · obtain rfl := Option.some.inj hstep
    exact h.setWorker fun _ hcurrent => Option.some.inj hcurrent ▸ hprog
  · cases hstep

/-- One operation of a stretch. -/
theorem PostsInv.advance (h : PostsInv p ls t) (env : Env)
    (hlooks : ∀ id, Looks p ls id (getUser t.store.users id)) {stretch : Stretch}
    (hcurrent : (t.workers w).current = some stretch) :
    PostsInv p ls (t.advance w env stretch.origin stretch.remaining) := by
  have hstretch := h.current w stretch hcurrent
  obtain ⟨origin, remaining⟩ := stretch
  cases remaining with
  | setUser users id user k =>
    have hwritten : PostsInv p ls
        { t with store := { t.store with users := setUser users id user } } :=
      ⟨h.appended, h.current⟩
    exact hwritten.continue hstretch
  | addChat chats chat k =>
    obtain ⟨hadds, hk⟩ := hstretch
    have hwritten : PostsInv p ls { t with
        store := { t.store with chats := addChat chats chat }
        appended := t.appended ++ [(origin, chat)] } := by
      refine ⟨fun c hc => ?_, h.current⟩
      rcases List.mem_append.mp hc with hc | hc
      · exact h.appended c hc
      · -- the new record is one that the stretch may add
        obtain ⟨horigin, rfl⟩ := Prod.mk.inj (List.mem_singleton.mp hc)
        exact hadds horigin.symm
    exact hwritten.continue hk
  | prog k =>
    cases k with
    | pure next | throw => exact h.setWorker fun _ hnone => nomatch hnone
    -- a read looks into the table that is there now
    | getUser id k => exact h.continue (hstretch _ (hlooks id))
    | setUser id user k => exact h.continue (show Stretch.Posts _ _ _ from hstretch.2)
    | getChat k => exact h.continue (hstretch _)
    | addChat chat k => exact h.continue (show Stretch.Posts _ _ _ from hstretch)
    | randomUUID k => exact h.continue (hstretch.2 _)
    | now k => exact h.continue (hstretch _)
    | call c k | startGpt k => exact h.continue (show Stretch.Posts _ _ _ from hstretch)

/-- What has been reached on the way of a run. -/
theorem postsInv (hrun : ClusterReaches p ms t) (hpre : ms <+: ls) : PostsInv p ls t := by
  induction hrun with
  | nil => exact ⟨fun _ hc => absurd hc List.not_mem_nil, fun _ _ hnone => nomatch hnone⟩
  | @snoc ms t t' l hrun hstep ih =>
    have hbefore : ms <+: ls := (List.prefix_append ms [l]).trans hpre
    have h := ih hbefore
    -- the step and all before it are among the labels of the whole run
    have hlabel : l ∈ ls := hpre.subset (List.mem_append_right _ (List.mem_singleton_self l))
    cases l with
    | request w text => exact h.take (handle_posts ⟨w, hlabel⟩) hstep
    | resume w index =>
      obtain ⟨a, -, hstep⟩ := Option.bind_eq_some_iff.mp hstep
      exact h.take (resume_posts a) hstep
    | gptReply w message now => exact h.take (gptReply_posts message now) hstep
    | advance w env =>
      obtain ⟨stretch, hcurrent, hstep⟩ := Option.bind_eq_some_iff.mp hstep
      obtain rfl := Option.some.inj hstep
      exact h.advance env (fun id => ⟨ms, t, hbefore, hrun, rfl⟩) hcurrent

/-- The user of a posted record is the one that the cookie names, or nobody where the cookie
names a property that all objects have. -/
theorem Posts.user {ctx : HTTPContext} {c : ChatData} (h : Posts p ls ctx c) :
    c.user = some (propertyKey ctx.userCookie) ∨
      (c.user = none ∧ propertyKey ctx.userCookie ∈ objectPrototype) := by
  obtain ⟨u, ⟨ms, t, -, hrun, hfound⟩, -, hid⟩ := h.session
  rw [hid]
  -- a record of its own has its key in `id`, an inherited property has none
  rcases getUser_cases hfound with hown | ⟨-, hkey, rfl⟩
  · exact .inl ((clusterInv hrun).users _ _ hown).id
  · exact .inr ⟨rfl, hkey⟩

end Posts

/-! ## Who has said what -/

section Cluster

variable {ω : Type} [DecidableEq ω] {p : Platform} {ls : List (ClusterLabel ω)} {s : Cluster ω}

/-- A message with the role `assistant` is one of the chatbot. -/
structure SaidByGpt (s : Cluster ω) (c : ChatData) : Prop where
  role : (promptMessage c).role = js "assistant"
  content : (promptMessage c).content = c.message
  reply : (Origin.gptReply, c) ∈ s.appended
  notHandler : (Origin.handler, c) ∉ s.appended

/-- A message with the role `user` stands behind the name of the session with which a request of
the run has posted it. -/
structure SaidByUser (p : Platform) (ls : List (ClusterLabel ω)) (s : Cluster ω) (c : ChatData) :
    Prop where
  role : (promptMessage c).role = js "user"
  content : (promptMessage c).content = js "[" ++ display c.user ++ js "] " ++ c.message
  handler : (Origin.handler, c) ∈ s.appended
  notReply : (Origin.gptReply, c) ∉ s.appended
  posted : ∃ ctx, Posts p ls ctx c ∧ (c.user = some (propertyKey ctx.userCookie) ∨
    (c.user = none ∧ propertyKey ctx.userCookie ∈ objectPrototype))
  short : c.message.length ≤ 1024

/-- The message for a record says who has said it. -/
theorem promptMessage_origin (hrun : ClusterReaches p ls s) {c : ChatData} (hc : c ∈ s.store.chats) :
    SaidByGpt s c ∨ SaidByUser p ls s c := by
  have h := clusterInv hrun
  obtain ⟨origin, hin⟩ := h.chats c hc
  -- the name says who has added it: handlers never store the name of the chatbot
  by_cases hgpt : c.user = some (js "GPT")
  · have hhandler : (Origin.handler, c) ∉ s.appended := fun hin' => (h.appended _ _ hin').1 hgpt
    have hreply : (Origin.gptReply, c) ∈ s.appended := by
      cases origin with
      | handler => exact absurd hin hhandler
      | gptReply => exact hin
    exact .inl
      { role := by rw [promptMessage, if_pos hgpt], content := by rw [promptMessage, if_pos hgpt]
        reply := hreply, notHandler := hhandler }
  · have hreply : (Origin.gptReply, c) ∉ s.appended := fun hin' => hgpt (h.appended _ _ hin')
    have hhandler : (Origin.handler, c) ∈ s.appended := by
      cases origin with
      | handler => exact hin
      | gptReply => exact absurd hin hreply
    obtain ⟨ctx, hposts⟩ := (postsInv hrun (List.prefix_refl ls)).appended c hhandler
    exact .inr
      { role := by rw [promptMessage, if_neg hgpt], content := by rw [promptMessage, if_neg hgpt]
        handler := hhandler, notReply := hreply, posted := ⟨ctx, hposts, hposts.user⟩
        short := (h.appended _ _ hhandler).2 }

/-- **The integrity of the prompt**: whatever requests any number of workers have served, what the
service reads in a request of the chatbot is the fixed system message and then one message for
each of the last ten chats, in their order. A message with the role `assistant` is word for word
one that the chatbot has added and no handler has; every other one has the role `user`, stands
behind the name of the session that the request which has posted it was checked for, and has at
most 1024 code units of text. -/
theorem prompt_integrity (hrun : ClusterReaches p ls s) {apiKey : Option JsString}
    {request : GptRequest} (h : gptRequest apiKey s.store.chats = some request) :
    ∃ recent, recent <:+ s.store.chats ∧ recent.length = min 10 s.store.chats.length ∧
      recent ≠ [] ∧ readPrompt request.body = some (systemMessage :: recent.map promptMessage) ∧
      ∀ c ∈ recent, SaidByGpt s c ∨ SaidByUser p ls s c := by
  obtain ⟨hne, hbody⟩ := gptRequest_body h
  have hlength : (s.store.chats.drop (s.store.chats.length - 10)).length =
      min 10 s.store.chats.length := by
    rw [List.length_drop]
    omega
  refine ⟨_, List.drop_suffix _ _, hlength, ?_, hbody, ?_⟩
  · have hpos : 0 < s.store.chats.length := List.length_pos_iff.mpr hne
    apply List.ne_nil_of_length_pos
    omega
  · exact fun c hc => promptMessage_origin hrun (List.mem_of_mem_drop hc)

end Cluster

/-- Behind the answer of the chatbot, Alice posts a message at the other worker. -/
def replyAndPost : List (ClusterLabel Bool) :=
  registerAndReply ++ .advance false sampleEnv ::
    .request false (sampleRequest "POST" "/chat" (js "user=alice") (js "message=hello")) ::
    List.replicate 4 (.advance false sampleEnv)

/-- The history then. -/
def replyAndHello : List ChatData :=
  [gptRecord (js "Hi") 7, { user := some (js "alice"), message := js "hello", timestamp := 0 }]

theorem prompt_integrity_alice :
    ∃ (s : Cluster Bool) (request : GptRequest) (recent : List ChatData),
      ClusterReaches samplePlatform replyAndPost s ∧
      gptRequest (some (js "key")) s.store.chats = some request ∧
      recent.length = 2 ∧ readPrompt request.body =
        some (systemMessage :: recent.map promptMessage) ∧
      ∀ c ∈ recent, ((promptMessage c).role = js "assistant" ↔ (Origin.gptReply, c) ∈ s.appended) ∧
        ((promptMessage c).role = js "user" → ∃ ctx, Posts samplePlatform replyAndPost ctx c) := by
  have hrun : ((replyAndPost.foldlM (Cluster.step samplePlatform)
      (Cluster.initial Store.initial)).map fun s => s.store.chats) = some replyAndHello := by
    decide +kernel
  obtain ⟨s, hs, hchats⟩ := Option.map_eq_some_iff.mp hrun
  obtain ⟨request, hrequest⟩ : ∃ request,
      gptRequest (some (js "key")) s.store.chats = some request := by
    rw [hchats]
    exact ⟨_, rfl⟩
  obtain ⟨recent, -, hlength, -, hread, hsaid⟩ := prompt_integrity (Run.of_foldlM hs) hrequest
  rw [hchats] at hlength
  refine ⟨s, request, recent, Run.of_foldlM hs, hrequest, hlength, hread, fun c hc => ?_⟩
  rcases hsaid c hc with hgpt | huser
  · exact ⟨⟨fun _ => hgpt.reply, fun _ => hgpt.role⟩,
      fun h => absurd (hgpt.role.symm.trans h) (by decide)⟩
  · obtain ⟨ctx, hposts, -⟩ := huser.posted
    exact ⟨⟨fun h => absurd (huser.role.symm.trans h) (by decide),
      fun h => absurd h huser.notReply⟩, fun _ => ⟨ctx, hposts⟩⟩

end NetworkServers.Phase2
