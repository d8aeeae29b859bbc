import NetworkServers.Phase2.Calls
import NetworkServers.Phase2.Markup

/-!
# The Long Poll of the Chat Page

`chat.html` asks `/chat-status` again and again and reloads the page when the answer is
not 304. The server compares the number of records at the end of a poll with the number at
its start, not with what the page shows. So a record that is added while no poll of the
page waits is not noticed: the page misses exactly the records of these moments.
-/

namespace NetworkServers.Phase2

open NetworkServers.Js NetworkServers.Runs

/-! ## The client -/

/-- Where the client is: it waits for the page, it shows a page and no poll of it has taken
its snapshot, or a poll of it waits in `changed()`. -/
inductive Client where
  | loads
  | shows (chats : List ChatData)
  | polls (chats : List ChatData) (size : ℕ)

/-- The client and the data files. -/
structure Pull where
  store : Store
  client : Client
  /-- The records added since the page was rendered at moments when no poll waited. -/
  unpolled : List ChatData

/-- The client before its first page. -/
def Pull.start (store : Store) : Pull := { store := store, client := .loads, unpolled := [] }

/-- What happens next. -/
inductive PullLabel where
  /-- Anyone adds a record. -/
  | add (chat : ChatData)
  /-- Anyone changes the user table. -/
  | users (table : UserTable)
  /-- `GET /chat` of the client. -/
  | page (text : JsString) (env : Env)
  /-- `GET /chat-status` of the client, up to the snapshot of `changed()`. -/
  | poll (text : JsString) (env : Env)
  /-- `changed()` settles, and the status is written. -/
  | answer (env : Env) (timeout : Bool)

/-- The status of an answer. -/
def statusOf (effects : List Effect) : Option ℕ :=
  effects.findSome? fun
    | .call (.writeHeaders status _) => some status
    | _ => none

/-- The answer to a poll with this snapshot. -/
def pollStatus (p : Platform) (env : Env) (s : Store) (size : ℕ) : Option ℕ :=
  statusOf (((Await.changed size).resume p).run env s).effects

/-- The unpolled records after one more record. -/
def Pull.unpolledWith (s : Pull) (chat : ChatData) : List ChatData :=
  match s.client with
  | .shows _ => s.unpolled ++ [chat]
  | _ => s.unpolled

/-- One step of `pull()` and of everything else. -/
inductive PullStep (p : Platform) (s : Pull) : PullLabel → Pull → Prop where
  | add (chat : ChatData) : PullStep p s (.add chat)
      { s with store := { s.store with chats := addChat s.store.chats chat }
               unpolled := s.unpolledWith chat }
  | users (table : UserTable) : PullStep p s (.users table)
      { s with store := { s.store with users := table } }
  | page {text : JsString} {env : Env} {ctx : HTTPContext} (hclient : s.client = .loads)
      (hparse : parse p text = some ctx) (hpath : ctx.path.pathname = js "/chat")
      (hget : ctx.method = js "GET")
      (hstatus : statusOf ((handle p text).run env s.store).effects = some 200) :
      PullStep p s (.page text env)
        { store := ((handle p text).run env s.store).store
          client := .shows s.store.chats
          unpolled := [] }
  | poll {text : JsString} {env : Env} {chats : List ChatData} {size : ℕ}
      (hclient : s.client = .shows chats)
      (hresult : ((handle p text).run env s.store).result = some (.await (.changed size))) :
      PullStep p s (.poll text env)
        { s with store := ((handle p text).run env s.store).store
                 client := .polls chats size }
  | answer {env : Env} {timeout : Bool} {chats : List ChatData} {size : ℕ}
      (hclient : s.client = .polls chats size)
      (hsettles : (Await.changed size).settles s.store timeout) :
      PullStep p s (.answer env timeout)
        { s with store := (((Await.changed size).resume p).run env s.store).store
                 -- the script polls again after 304 and reloads the page otherwise
                 client := if pollStatus p env s.store size = some 304 then .shows chats
                   else .loads }

/-! ## What the steps do -/

section Steps

variable {p : Platform} {s t : Pull} {l : PullLabel} {env : Env} {text : JsString}
  {ctx : HTTPContext} {size : ℕ}

/-- The page that comes with status 200 is made of all records of the store. -/
theorem page_effects (hparse : parse p text = some ctx) (hpath : ctx.path.pathname = js "/chat")
    (hget : ctx.method = js "GET") {store : Store}
    (hstatus : statusOf ((handle p text).run env store).effects = some 200) :
    ∃ router html, makeRouter p = some router ∧
      router.renderStatic p ctx.path.pathname
        (Dict.empty.set (js "chats") (chatsText p store.chats)) = some html ∧
      ((handle p text).run env store).effects =
        responseCalls 200 [(js "Content-Type", js "text/html")] [utf8Encode html] := by
  cases hrouter : makeRouter p with
  | none =>
    rw [handle_run_noRouter hrouter] at hstatus
    cases hstatus
  | some router =>
    have hrequest : SessionRequest p text ctx (serveChat p router ctx) :=
      ⟨hparse, router, hrouter, .inl ⟨hpath, rfl⟩⟩
    rw [hrequest.handle_run] at hstatus ⊢
    rcases withSession_run ctx (serveChat p router ctx) env store with
      ⟨u, -, -, hrun⟩ | ⟨-, url, headers, hrun⟩
    · rw [hrun, serveChat_get hget] at hstatus ⊢
      cases hrender : router.renderStatic p ctx.path.pathname
          (Dict.empty.set (js "chats") (chatsText p store.chats)) with
      | none =>
        rw [hrender] at hstatus
        cases hstatus
      | some html =>
        rw [hrender] at hstatus
        dsimp only at hstatus ⊢
        split at hstatus
        · cases hstatus
        · rename_i hne
          refine ⟨router, html, rfl, hrender, ?_⟩
          rw [if_neg hne]
          rfl
    · -- a redirect has another status
      rw [hrun] at hstatus
      cases hstatus

/-- Rendering the page adds no record. -/
theorem page_chats (hparse : parse p text = some ctx) (hget : ctx.method = js "GET")
    (store : Store) : ((handle p text).run env store).store.chats = store.chats := by
  rcases handle_chats text env store with ⟨ctx', u, message, hpost, -⟩ | ⟨-, hchats⟩
  · obtain rfl := Option.some.inj (hparse.symm.trans hpost.parsed)
    exact absurd (hget.symm.trans hpost.method) (by decide)
  · exact hchats

/-- **The snapshot** of a poll is the number of records, and the poll adds none. -/
theorem poll_snapshot {store : Store}
    (hresult : ((handle p text).run env store).result = some (.await (.changed size))) :
    size = store.chats.length ∧ ((handle p text).run env store).store.chats = store.chats := by
  obtain ⟨ctx, hparse, hstart⟩ := handle_calls text _ hresult
  generalize [] ++ callsOf ((handle p text).run env store).effects = calls at hstart
  cases hstart with
  | changed h =>
    rcases handle_chats text env store with ⟨ctx', u, message, hpost, -⟩ | ⟨-, hchats⟩
    · obtain rfl := Option.some.inj (hparse.symm.trans hpost.parsed)
      exact absurd (h.path.symm.trans hpost.path) (by decide)
    · exact ⟨rfl, hchats⟩

/-- **The answer** to a poll is 304 exactly if the number of records is that of the
snapshot. -/
theorem pollStatus_iff (store : Store) :
    pollStatus p env store size = some 304 ↔ size = store.chats.length := by
  have hstatus : pollStatus p env store size =
      some (if size ≠ store.chats.length then 200 else 304) := rfl
  rw [hstatus]
  split
  · rename_i hne
    exact iff_of_false (by decide) hne
  · rename_i heq
    exact iff_of_true rfl (not_not.mp heq)

/-- At a 304 nothing has come behind the snapshot. -/
theorem later_eq_nil {store : Store} {before later : List ChatData}
    (hstore : store.chats = before ++ later) (hsize : size = before.length)
    (hstatus : pollStatus p env store size = some 304) : later = [] := by
  have hlength := (pollStatus_iff store).mp hstatus
  rw [hsize, hstore, List.length_append] at hlength
  exact List.length_eq_zero_iff.mp (Nat.add_eq_left.mp hlength.symm)

end Steps

/-! ## What the page shows -/

/-- The records of the store are those of the page, the unpolled ones, and those that came
after the snapshot of the poll that waits. -/
inductive PullInv : Pull → Prop where
  | loads {s : Pull} (hclient : s.client = .loads) : PullInv s
  | shows {s : Pull} {chats : List ChatData} (hclient : s.client = .shows chats)
      (hstore : s.store.chats = chats ++ s.unpolled) : PullInv s
  | polls {s : Pull} {chats later : List ChatData} {size : ℕ}
      (hclient : s.client = .polls chats size)
      (hstore : s.store.chats = chats ++ s.unpolled ++ later)
      (hsize : size = (chats ++ s.unpolled).length) : PullInv s

section Runs

variable {p : Platform} {s t : Pull} {l : PullLabel} {ls : List PullLabel}

/-- While a poll waits, the store is the snapshot and what has been added behind it. -/
theorem PullInv.of_polls (h : PullInv s) {chats : List ChatData} {size : ℕ}
    (hclient : s.client = .polls chats size) :
    ∃ later, s.store.chats = chats ++ s.unpolled ++ later ∧
      size = (chats ++ s.unpolled).length := by
  cases h with
  | loads hloads => cases hloads.symm.trans hclient
  | shows hshows => cases hshows.symm.trans hclient
  | @polls chats' later size' hpolls hstore hsize =>
    obtain ⟨rfl, rfl⟩ := Client.polls.inj (hpolls.symm.trans hclient)
    exact ⟨later, hstore, hsize⟩

theorem PullInv.step (h : PullInv s) (hstep : PullStep p s l t) : PullInv t := by
  cases hstep with
  | add chat =>
    cases h with
    | loads hclient => exact .loads hclient
    | @shows chats hclient hstore =>
      refine .shows hclient ?_
      show s.store.chats ++ [chat] = chats ++ s.unpolledWith chat
      rw [Pull.unpolledWith, hclient, hstore, List.append_assoc]
    | @polls chats later size hclient hstore hsize =>
      -- the snapshot of the poll stays; the record comes behind it
      have hunpolled : s.unpolledWith chat = s.unpolled := by rw [Pull.unpolledWith, hclient]
      have hadded : s.store.chats ++ [chat] = chats ++ s.unpolledWith chat ++ (later ++ [chat]) := by
        rw [hunpolled, hstore, List.append_assoc]
      refine .polls hclient hadded ?_
      show size = (chats ++ s.unpolledWith chat).length
      rw [hunpolled, hsize]
  | users table =>
    cases h with
    | loads hclient => exact .loads hclient
    | shows hclient hstore => exact .shows hclient hstore
    | polls hclient hstore hsize => exact .polls hclient hstore hsize
  | page hclient hparse hpath hget hstatus =>
    refine .shows rfl ?_
    rw [page_chats hparse hget, List.append_nil]
  | @poll text env chats size hclient hresult =>
    obtain ⟨hsize, hchats⟩ := poll_snapshot hresult
    cases h with
    | loads hloads => cases hloads.symm.trans hclient
    | polls hpolls => cases hpolls.symm.trans hclient
    | shows hshows hstore =>
      obtain rfl := Client.shows.inj (hshows.symm.trans hclient)
      refine @PullInv.polls _ _ [] _ rfl ?_ ?_
      · rw [hchats, hstore, List.append_nil]
      · rw [hsize, hstore]
  | @answer env timeout chats size hclient hsettles =>
    obtain ⟨later, hstore, hsize⟩ := h.of_polls hclient
    by_cases hstatus : pollStatus p env s.store size = some 304
    · -- nothing has been added behind the snapshot
      refine @PullInv.shows _ chats (if_pos hstatus) ?_
      have hkeeps := (resume_keepsChats (p := p) (.changed size)).run env s.store
      rw [hkeeps, hstore, later_eq_nil hstore hsize hstatus, List.append_nil]
    · exact .loads (if_neg hstatus)

/-- The invariant holds in every run. -/
theorem pullInv {store : Store} (hrun : Run (PullStep p) (Pull.start store) ls s) : PullInv s :=
  hrun.invariant (.loads rfl) fun _ _ _ => PullInv.step

/-- The client gets the answer 304 while it shows the given records. -/
def Pull.NotModified (p : Platform) (env : Env) (s : Pull) (chats : List ChatData) : Prop :=
  ∃ size timeout, s.client = .polls chats size ∧
    (Await.changed size).settles s.store timeout ∧ pollStatus p env s.store size = some 304

/-- What is behind a 304: the page and the unpolled records are the store. -/
theorem PullInv.notModified (h : PullInv s) {env : Env} {chats : List ChatData}
    (hanswer : s.NotModified p env chats) : s.store.chats = chats ++ s.unpolled := by
  obtain ⟨size, timeout, hclient, -, hstatus⟩ := hanswer
  obtain ⟨later, hstore, hsize⟩ := h.of_polls hclient
  rw [hstore, later_eq_nil hstore hsize hstatus, List.append_nil]

/-- **The long poll** misses nothing at an answer 304 exactly if, since the page was
rendered, no record was added while no poll waited. -/
theorem sees_all_iff {store : Store} (hrun : Run (PullStep p) (Pull.start store) ls s)
    {env : Env} {chats : List ChatData} (hanswer : s.NotModified p env chats) :
    chats.length = s.store.chats.length ↔ s.unpolled = [] := by
  rw [(pullInv hrun).notModified hanswer, List.length_append, ← List.length_eq_zero_iff]
  omega

/-- If records are added only while a poll waits or the page is on its way, the page shows
all of them at every answer 304. -/
theorem sees_all_of_guarded {store : Store}
    (hrun : Run (Guarded (fun s l => ∀ chat chats, l = .add chat → s.client ≠ .shows chats)
      (PullStep p)) (Pull.start store) ls s)
    {env : Env} {chats : List ChatData} (hanswer : s.NotModified p env chats) :
    chats = s.store.chats := by
  have hunpolled : s.unpolled = [] := by
    clear hanswer
    induction hrun with
    | nil => rfl
    | snoc _ hstep ih =>
      obtain ⟨hguard, hstep⟩ := hstep
      cases hstep with
      | add chat =>
        unfold Pull.unpolledWith
        split
        · rename_i chats hclient
          exact absurd hclient (hguard chat chats rfl)
        · exact ih
      | users | poll | answer => exact ih
      | page => rfl
  rw [(pullInv hrun.unguarded).notModified hanswer, hunpolled, List.append_nil]

end Runs

/-! ## A record between two polls -/

/-- A record with this message. -/
def amyChat (message : String) : ChatData :=
  { user := some (js "amy"), message := js message, timestamp := 0 }

/-- A session and one record. -/
def pollStore : Store where
  users := Dict.empty.set (js "bob") { token := some (tokenOf sampleUuid) }
  chats := [amyChat "hi"]

/-- A request of the page in that session. -/
def pollText (path : String) : JsString :=
  sampleRequest "GET" path (js "user=bob; token=" ++ tokenOf sampleUuid) []

/-- The client with its page. -/
def showsFirst : Pull where
  store := ((handle samplePlatform (pollText "/chat")).run sampleEnv pollStore).store
  client := .shows [amyChat "hi"]
  unpolled := []

/-- A poll has begun behind the second record. -/
def pollsLate : Pull where
  store := ((handle samplePlatform (pollText "/chat-status")).run sampleEnv
    { showsFirst.store with chats := addChat showsFirst.store.chats (amyChat "you there?") }).store
  client := .polls [amyChat "hi"] 2
  unpolled := [amyChat "you there?"]

theorem run_pollsLate : Run (PullStep samplePlatform) (Pull.start pollStore)
    [.page (pollText "/chat") sampleEnv, .add (amyChat "you there?"),
      .poll (pollText "/chat-status") sampleEnv] pollsLate := by
  have hpage : ((parse samplePlatform (pollText "/chat")).map fun ctx =>
      (ctx.path.pathname, ctx.method)) = some (js "/chat", js "GET") := by decide +kernel
  obtain ⟨ctx, hparse, hctx⟩ := Option.map_eq_some_iff.mp hpage
  obtain ⟨hpath, hget⟩ := Prod.mk.inj hctx
  have hfirst : PullStep samplePlatform (Pull.start pollStore)
      (.page (pollText "/chat") sampleEnv) showsFirst :=
    .page rfl hparse hpath hget (by decide +kernel)
  have hpoll : PullStep samplePlatform
      { showsFirst with
        store := { showsFirst.store with chats := addChat showsFirst.store.chats (amyChat "you there?") }
        unpolled := [amyChat "you there?"] }
      (.poll (pollText "/chat-status") sampleEnv) pollsLate :=
    .poll rfl (by decide +kernel)
  exact ((Run.single hfirst).snoc (.add _)).snoc hpoll

theorem notModified_pollsLate :
    pollsLate.NotModified samplePlatform sampleEnv [amyChat "hi"] :=
  ⟨2, true, rfl, rfl, by decide +kernel⟩

/-- The client does not see the second record. -/
theorem sees_all_iff_late : pollsLate.store.chats.length = 2 ∧
    ¬[amyChat "hi"].length = pollsLate.store.chats.length := by
  refine ⟨by decide +kernel, fun hlength => ?_⟩
  have hunpolled := (sees_all_iff run_pollsLate notModified_pollsLate).mp hlength
  cases hunpolled

/-- An answer 304 does not mean that the page shows all records. -/
theorem not_sees_all : ¬∀ (p : Platform) (store : Store) (ls : List PullLabel) (s : Pull),
    Run (PullStep p) (Pull.start store) ls s → ∀ (env : Env) (chats : List ChatData),
    s.NotModified p env chats → chats.length = s.store.chats.length := by
  intro h
  have hlength := h _ _ _ _ run_pollsLate sampleEnv _ notModified_pollsLate
  exact absurd hlength (by decide +kernel)

end NetworkServers.Phase2
