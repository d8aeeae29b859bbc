import NetworkServers.Phase2.Cluster

/-!
# The User Table and the Chatbot's Name

Whatever the workers do to the data files, in whatever order, every entry of the user
table is a record with its own key as `id`, under a name that `register` accepts, and with
a digest as password. No name is `GPT`, so a record of the chat history has this user only
if the chatbot has added it.

Handlers write back whole copies of records that they have read before, and across workers
whole files. The invariant therefore speaks about everything that has been read and not
yet written: every table and every record on its way is as good as the stored ones.
-/

namespace NetworkServers.Phase2

open NetworkServers.Js NetworkServers.Runs

/-! ## Valid records -/

/-- A SHA-256 digest in hexadecimal. -/
def IsHexDigest (hash : JsString) : Prop :=
  hash.length = 64 ∧ ∀ c ∈ hash, ∃ n < 16, c = hexDigit n

/-- A user name that `register` accepts. -/
structure ValidName (name : JsString) : Prop where
  notGpt : name ≠ js "GPT"
  length : 3 ≤ name.length ∧ name.length ≤ 32

/-- A record as it should stand under a key. -/
structure ValidUser (key : JsString) (u : UserData) : Prop where
  name : ValidName key
  id : u.id = some key
  password : ∃ hash, u.password = some hash ∧ IsHexDigest hash

/-- Every own entry of the table is a valid record for its key. -/
def UsersValid (users : UserTable) : Prop := ∀ key u, users.get? key = some u → ValidUser key u

theorem isHexDigest_passwordHash (p : Platform) (password : JsString) :
    IsHexDigest (passwordHash p password) := by
  refine ⟨?_, fun c hc => exists_hexDigit hc⟩
  rw [passwordHash, length_hexEncode, p.sha256_length]

theorem usersValid_initial : UsersValid Store.initial.users := fun _ _ h => nomatch h

section SetUser

variable {users : UserTable} {id : Option JsString} {user : UserPatch}

theorem UsersValid.set (h : UsersValid users) {key : JsString} {u : UserData}
    (hu : ValidUser key u) : UsersValid (users.set key u) := by
  intro other stored hget
  rw [Dict.get?_set] at hget
  split at hget
  · rename_i hkey
    exact hkey ▸ Option.some.inj hget ▸ hu
  · exact h other stored hget

/-- `set_user` with the key as `id` and a digest as password stores a valid record. -/
theorem UsersValid.setUser_full {hash : JsString} (h : UsersValid users)
    (hname : ValidName (propertyKey id)) (hid : user.id = some (some (propertyKey id)))
    (hpassword : user.password = some (some hash)) (hhash : IsHexDigest hash) :
    UsersValid (setUser users id user) := by
  have hfull : ∀ u : UserData, ValidUser (propertyKey id) (u.assign user) := fun u =>
    ⟨hname, by simp [UserData.assign, hid], hash, by simp [UserData.assign, hpassword], hhash⟩
  unfold setUser
  split
  · exact h.set (hfull _)
  · exact h
  · exact h.set (hfull _)

/-- Writing back a copy of a valid record, with another token, stores a valid record. -/
theorem UsersValid.setUser_spread {u : UserData} (h : UsersValid users)
    (hu : ValidUser (propertyKey id) u) (token : Option (Option JsString)) :
    UsersValid (setUser users id { u.spread with token := token }) := by
  obtain ⟨hash, hpassword, hhash⟩ := hu.password
  refine h.setUser_full hu.name ?_ ?_ hhash
  · simp [UserData.spread, hu.id]
  · simp [UserData.spread, hpassword]

/-- What is written under an inherited name without `id` and password changes nothing but
the token of a stored record. -/
theorem UsersValid.setUser_inherited (h : UsersValid users)
    (hkey : propertyKey id ∈ objectPrototype) (hid : user.id = none)
    (hpassword : user.password = none) : UsersValid (setUser users id user) := by
  cases hget : users.get? (propertyKey id) with
  | none => rwa [Phase2.setUser_inherited hget hkey]
  | some stored =>
    obtain ⟨hname, hstored, hash⟩ := h _ _ hget
    intro key u hu
    by_cases hself : key = propertyKey id
    · rw [hself, get?_setUser_own hget] at hu
      rw [hself, ← Option.some.inj hu]
      refine ⟨hname, ?_, ?_⟩
      · simp [UserData.assign, hid, hstored]
      · simpa [UserData.assign, hpassword] using hash
    · rw [get?_setUser_ne hself] at hu
      exact h key u hu

end SetUser

/-! ## The rules that all workers keep to -/

/-- What a read of a valid table may return. -/
def FoundValid (id : Option JsString) : Option UserData → Prop
  | some u => ValidUser (propertyKey id) u ∨ (propertyKey id ∈ objectPrototype ∧ u = {})
  | none => True

theorem UsersValid.found {users : UserTable} (h : UsersValid users) (id : Option JsString) :
    FoundValid id (getUser users id) := by
  cases hget : getUser users id with
  | none => trivial
  | some u =>
    rcases getUser_cases hget with hown | ⟨-, hkey, hu⟩
    · exact .inl (h _ _ hown)
    · exact .inr ⟨hkey, hu⟩

/-- What the two origins of chat records add. -/
def Origin.Adds : Origin → ChatData → Prop
  | .handler, chat => chat.user ≠ some (js "GPT") ∧ chat.message.length ≤ 1024
  | .gptReply, chat => chat.user = some (js "GPT")

/-- Reads return valid records, and writes keep tables valid. -/
def Origin.rules (origin : Origin) : Rules where
  found := FoundValid
  stored := fun id user => ∀ users, UsersValid users → UsersValid (setUser users id user)
  added := origin.Adds
  drawn := True

/-- What a handler may wait for: `register` with a name that it has accepted, `login` with
a record that it has found. -/
def Await.Valid : Await → Prop
  | .register username _ => ValidName username
  | .login username _ u => FoundValid username (some u)
  | _ => True

def Next.Valid : Next → Prop
  | .await a => a.Valid
  | .done => True

/-! ## The handlers keep to the rules -/

section Handlers

variable {p : Platform}

/-- A record that was found has an `id` other than `GPT`. -/
theorem FoundValid.id_ne {id : Option JsString} {u : UserData} (h : FoundValid id (some u)) :
    u.id ≠ some (js "GPT") := by
  rcases h with hu | ⟨-, rfl⟩
  · rw [hu.id]
    exact fun hgpt => hu.name.notGpt (Option.some.inj hgpt)
  · exact fun h => nomatch h

/-- Taking back the token of a record that was found. -/
theorem UsersValid.setUser_loggedOut {users : UserTable} {id : Option JsString} {u : UserData}
    (h : UsersValid users) (hfound : FoundValid id (some u)) :
    UsersValid (setUser users id { u.spread with token := some none }) := by
  rcases hfound with hu | ⟨hkey, rfl⟩
  · exact h.setUser_spread hu _
  · exact h.setUser_inherited hkey rfl rfl

theorem length_postedMessage {ctx : HTTPContext} {message : JsString}
    (h : postedMessage ctx = some message) : message.length ≤ 1024 := by
  obtain ⟨raw, -, h⟩ := Option.bind_eq_some_iff.mp h
  obtain ⟨text, -, h⟩ := Option.bind_eq_some_iff.mp h
  obtain rfl := Option.some.inj h
  exact List.length_take_le ..

theorem handler_obeys (router : Router) (ctx : HTTPContext) (route : Route) :
    (route.handler p router ctx).Obeys (Origin.rules .handler) Next.Valid := by
  cases route with
  | reflect => exact reflect_obeys trivial
  | computeSqrt => exact computeSqrt_obeys trivial
  | register =>
    apply register_obeys trivial (fun _ => trivial)
    -- the checks of the form are made before the record is written
    intro username password _ _ _ hlength _ _ hgpt _
    exact ⟨hgpt, hlength⟩
  | login =>
    apply login_obeys trivial (fun _ => trivial)
    intro username password u hfound
    exact hfound
  | logout =>
    apply logout_obeys trivial
    exact fun u hfound _ users husers => husers.setUser_loggedOut hfound
  | chatroom =>
    -- a session has a record, and no record is one of GPT
    apply withSession_obeys trivial
    intro u hfound _
    apply serveChat_obeys u trivial
    intro message time hmessage
    exact ⟨hfound.id_ne, length_postedMessage hmessage⟩
  | chatStatus =>
    apply withSession_obeys trivial
    exact fun u _ _ => serveChatStatus_obeys u trivial fun _ => trivial

theorem handle_obeys (text : JsString) :
    (handle p text).Obeys (Origin.rules .handler) Next.Valid := by
  simp only [handle, obeys_bind, obeys_require]
  intro ctx _ router _
  unfold Router.handle
  split
  · exact handler_obeys _ _ _
  · exact serveStatic_obeys _ trivial fun _ => trivial

theorem resume_obeys {a : Await} (h : a.Valid) :
    (a.resume p).Obeys (Origin.rules .handler) Next.Valid := by
  cases a with
  | register username password =>
    apply registerDigest_obeys trivial
    intro users husers
    exact husers.setUser_full h rfl rfl (isHexDigest_passwordHash p password)
  | login username password u =>
    apply loginDigest_obeys trivial trivial
    intro token hpassword users husers
    rcases h with hu | ⟨-, rfl⟩
    · exact husers.setUser_spread hu _
    · -- an inherited object has no password
      cases hpassword
  | stream chunks => exact streamNext_obeys _ trivial fun _ => trivial
  | changed size => exact changedNext_obeys _ trivial

theorem gptReply_obeys (message : JsString) (now : ℕ) :
    (gptReply message now).Obeys (Origin.rules .gptReply) Next.Valid := by
  simp only [gptReply, obeys_bind, obeys_chatAdd, obeys_pure]
  exact ⟨rfl, trivial⟩

end Handlers

/-! ## The invariant of a cluster -/

/-- Every record of a chat history has been appended. -/
def Logged (appended : List (Origin × ChatData)) (chats : List ChatData) : Prop :=
  ∀ c ∈ chats, ∃ origin, (origin, c) ∈ appended

/-- What is left of a stretch keeps to the rules, and the file that it has read and not yet
written is as good as the stored one. -/
def Stretch.Valid (appended : List (Origin × ChatData)) (stretch : Stretch) : Prop :=
  match stretch.remaining with
  | .prog k => k.Obeys stretch.origin.rules Next.Valid
  | .setUser users id user k =>
    UsersValid users ∧ stretch.origin.rules.stored id user ∧ k.Obeys stretch.origin.rules Next.Valid
  | .addChat chats chat k =>
    Logged appended chats ∧ stretch.origin.Adds chat ∧ k.Obeys stretch.origin.rules Next.Valid

structure Worker.Valid (appended : List (Origin × ChatData)) (worker : Worker) : Prop where
  current : ∀ stretch, worker.current = some stretch → stretch.Valid appended
  waiting : ∀ a ∈ worker.waiting, a.Valid

/-- What holds of a cluster in every state. -/
structure ClusterInv {ω : Type} (s : Cluster ω) : Prop where
  users : UsersValid s.store.users
  chats : Logged s.appended s.store.chats
  appended : ∀ origin chat, (origin, chat) ∈ s.appended → origin.Adds chat
  workers : ∀ w, (s.workers w).Valid s.appended

section Cluster

variable {ω : Type} {p : Platform} {s t : Cluster ω} {w : ω}
  {appended : List (Origin × ChatData)}

theorem Logged.snoc {chats : List ChatData} (h : Logged appended chats)
    (entry : Origin × ChatData) : Logged (appended ++ [entry]) chats := by
  intro c hc
  obtain ⟨origin, hin⟩ := h c hc
  exact ⟨origin, List.mem_append_left _ hin⟩

theorem Worker.Valid.snoc {worker : Worker} (h : worker.Valid appended)
    (entry : Origin × ChatData) : worker.Valid (appended ++ [entry]) := by
  refine ⟨fun stretch hcurrent => ?_, h.waiting⟩
  have hstretch := h.current stretch hcurrent
  unfold Stretch.Valid at hstretch ⊢
  -- only a history that has been read looks at what is appended
  split at hstretch
  · exact hstretch
  · exact hstretch
  · exact ⟨hstretch.1.snoc entry, hstretch.2⟩

theorem clusterInv_initial : ClusterInv (Cluster.initial Store.initial : Cluster ω) where
  users := usersValid_initial
  chats := fun _ hc => (List.not_mem_nil hc).elim
  appended := fun _ _ hin => (List.not_mem_nil hin).elim
  workers := fun _ => ⟨fun _ h => (nomatch h), fun _ h => (List.not_mem_nil h).elim⟩

/-- The table on the disk has been replaced. -/
theorem ClusterInv.withUsers (h : ClusterInv s) {users : UserTable} (husers : UsersValid users) :
    ClusterInv { s with store := { s.store with users := users } } :=
  { h with users := husers }

/-- The history on the disk has been replaced by one that was read earlier, with a record. -/
theorem ClusterInv.append (h : ClusterInv s) {chats : List ChatData} {origin : Origin}
    {chat : ChatData} (hchats : Logged s.appended chats) (hadds : origin.Adds chat) :
    ClusterInv { s with
      store := { s.store with chats := addChat chats chat }
      appended := s.appended ++ [(origin, chat)] } where
  users := h.users
  chats := by
    intro c hc
    rcases List.mem_append.mp hc with hc | hc
    · exact hchats.snoc _ c hc
    · rw [List.mem_singleton.mp hc]
      exact ⟨origin, List.mem_append_right _ (List.mem_singleton_self _)⟩
  appended := by
    intro origin' chat' hin
    rcases List.mem_append.mp hin with hin | hin
    · exact h.appended origin' chat' hin
    · obtain ⟨rfl, rfl⟩ := Prod.mk.inj (List.mem_singleton.mp hin)
      exact hadds
  workers := fun w => (h.workers w).snoc _

variable [DecidableEq ω]

/-- A step that replaces one worker. -/
theorem ClusterInv.setWorker (h : ClusterInv s) {worker : Worker}
    (hworker : worker.Valid s.appended) : ClusterInv (s.setWorker w worker) where
  users := h.users
  chats := h.chats
  appended := h.appended
  workers := (Function.forall_update_iff s.workers fun _ worker => worker.Valid s.appended).mpr
    ⟨hworker, fun w' _ => h.workers w'⟩

/-- The current stretch goes on. -/
theorem ClusterInv.continue (h : ClusterInv s) {origin : Origin} {remaining : Remaining}
    (hstretch : Stretch.Valid s.appended { origin := origin, remaining := remaining }) :
    ClusterInv (s.continue w origin remaining) := by
  apply h.setWorker
  exact ⟨fun stretch hcurrent => Option.some.inj hcurrent ▸ hstretch, (h.workers w).waiting⟩

/-- An idle worker takes up a stretch that keeps to the rules. -/
theorem ClusterInv.take (h : ClusterInv s) {origin : Origin} {prog : Prog Next}
    {waiting : List Await} (hprog : prog.Obeys origin.rules Next.Valid)
    (hwaiting : ∀ a ∈ waiting, a.Valid) (hstep : s.take w origin prog waiting = some t) :
    ClusterInv t := by
  unfold Cluster.take at hstep
  split at hstep
  · obtain rfl := Option.some.inj hstep
    apply h.setWorker
    exact ⟨fun stretch hcurrent => Option.some.inj hcurrent ▸ hprog, hwaiting⟩
  · cases hstep

/-- One operation of a stretch. -/
theorem ClusterInv.advance (h : ClusterInv s) (env : Env) {stretch : Stretch}
    (hcurrent : (s.workers w).current = some stretch) :
    ClusterInv (s.advance w env stretch.origin stretch.remaining) := by
  have hstretch := (h.workers w).current stretch hcurrent
  obtain ⟨origin, remaining⟩ := stretch
  cases remaining with
  -- the write behind a read: what is written was computed from records read before
  | setUser users id user k =>
    obtain ⟨husers, hstored, hk⟩ := hstretch
    exact (h.withUsers (hstored users husers)).continue hk
  | addChat chats chat k =>
    obtain ⟨hchats, hadds, hk⟩ := hstretch
    exact (h.append hchats hadds).continue hk
  | prog k =>
    cases k with
    | pure next =>
      -- the stretch ends; what it awaits obeys the same rules
      apply h.setWorker
      refine ⟨fun stretch hnone => (nomatch hnone), fun a ha => ?_⟩
      rcases List.mem_append.mp ha with ha | ha
      · exact (h.workers w).waiting a ha
      · cases next with
        | done => exact (List.not_mem_nil ha).elim
        | await a' => exact List.mem_singleton.mp ha ▸ hstretch
    | throw => exact h.setWorker ⟨fun stretch hnone => (nomatch hnone), (h.workers w).waiting⟩
    -- what a read returns is in the files now, and so one of the valid records
    | getUser id k => exact h.continue (hstretch _ (h.users.found id))
    | setUser id user k => exact h.continue ⟨h.users, hstretch⟩
    | getChat k => exact h.continue (hstretch _)
    | addChat chat k => exact h.continue ⟨h.chats, hstretch⟩
    | randomUUID k => exact h.continue (hstretch.2 _)
    | now k => exact h.continue (hstretch _)
    | call c k => exact h.continue (show Stretch.Valid _ _ from hstretch)
    | startGpt k => exact h.continue (show Stretch.Valid _ _ from hstretch)

/-- One step keeps the invariant. -/
theorem ClusterInv.step {l : ClusterLabel ω} (h : ClusterInv s) (hstep : ClusterSteps p s l t) :
    ClusterInv t := by
  cases l with
  | request w text => exact h.take (handle_obeys text) (h.workers w).waiting hstep
  | resume w index =>
    obtain ⟨a, ha, hstep⟩ := Option.bind_eq_some_iff.mp hstep
    apply h.take (resume_obeys _) _ hstep
    · exact (h.workers w).waiting a (List.mem_of_getElem? ha)
    · exact fun a' ha' => (h.workers w).waiting a' (List.mem_of_mem_eraseIdx ha')
  | gptReply w message now => exact h.take (gptReply_obeys message now) (h.workers w).waiting hstep
  | advance w env =>
    obtain ⟨stretch, hcurrent, hstep⟩ := Option.bind_eq_some_iff.mp hstep
    obtain rfl := Option.some.inj hstep
    exact h.advance env hcurrent

/-- The invariant holds in every state that a cluster reaches. -/
theorem clusterInv {ls : List (ClusterLabel ω)} (hrun : ClusterReaches p ls s) : ClusterInv s :=
  hrun.invariant clusterInv_initial fun _ _ _ h hstep => h.step hstep

/-- **User table and chatbot**: in every state that any number of workers reach, every own
entry of the user table is a valid record for its key; every chat record whose user is
`GPT` has been added by the chatbot and by nobody else; and every chat record that the
chatbot has not added has a message of at most 1024 code units. -/
theorem noImpersonation {ls : List (ClusterLabel ω)} (hrun : ClusterReaches p ls s) :
    UsersValid s.store.users ∧
    (∀ c ∈ s.store.chats, c.user = some (js "GPT") →
      (Origin.gptReply, c) ∈ s.appended ∧ (Origin.handler, c) ∉ s.appended) ∧
    ∀ c ∈ s.store.chats, (Origin.gptReply, c) ∉ s.appended → c.message.length ≤ 1024 := by
  have hinv := clusterInv hrun
  refine ⟨hinv.users, fun c hc hgpt => ?_, fun c hc hother => ?_⟩
  · -- a handler does not add records with this user
    have hhandler : (Origin.handler, c) ∉ s.appended := fun hin => (hinv.appended _ _ hin).1 hgpt
    obtain ⟨origin, hin⟩ := hinv.chats c hc
    cases origin with
    | handler => exact absurd hin hhandler
    | gptReply => exact ⟨hin, hhandler⟩
  · obtain ⟨origin, hin⟩ := hinv.chats c hc
    cases origin with
    | handler => exact (hinv.appended _ _ hin).2
    | gptReply => exact absurd hin hother

end Cluster

/-- One worker registers Alice; between the read and the write of its `set_user` another
worker begins to add an answer of the chatbot, and both files are written. -/
def registerAndReply : List (ClusterLabel Bool) :=
  .request true (sampleRequest "POST" "/register" [] (aliceForm "password1")) ::
    List.replicate 3 (.advance true sampleEnv) ++
    [.resume true 0, .advance true sampleEnv, .gptReply false (js "Hi") 7,
      .advance false sampleEnv, .advance true sampleEnv, .advance false sampleEnv]

theorem noImpersonation_alice :
    ∃ s : Cluster Bool, s.store.chats = [gptRecord (js "Hi") 7] ∧
      (∃ u, s.store.users.get? (js "alice") = some u ∧ ValidUser (js "alice") u) ∧
      (Origin.gptReply, gptRecord (js "Hi") 7) ∈ s.appended := by
  have hrun : ((registerAndReply.foldlM (Cluster.step samplePlatform)
      (Cluster.initial Store.initial)).map
      fun s => ((s.store.users.get? (js "alice")).isSome, s.store.chats)) =
      some (true, [gptRecord (js "Hi") 7]) := by decide +kernel
  obtain ⟨s, hs, hfields⟩ := Option.map_eq_some_iff.mp hrun
  obtain ⟨halice, hchats⟩ := Prod.mk.inj hfields
  obtain ⟨husers, hgpt, -⟩ := noImpersonation (Run.of_foldlM hs)
  obtain ⟨u, hu⟩ := Option.isSome_iff_exists.mp halice
  refine ⟨s, hchats, ⟨u, hu, husers _ u hu⟩, (hgpt _ ?_ rfl).1⟩
  rw [hchats]
  exact List.mem_singleton_self _

end NetworkServers.Phase2
