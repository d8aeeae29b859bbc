import NetworkServers.Phase2.Handlers

/-!
# Handlers under Interference

Other workers may change the data files between two operations of a stretch, so a
handler can rely only on what every single read may return. `Rules` says what that is, and
what a stretch may write; `Prog.Obeys` says that a program, whatever its reads return
within the rules, writes only what they allow, and what it ends with. What a handler needs
of the rules is stated once for every handler.
-/

namespace NetworkServers.Phase2

open NetworkServers.Js
open Prog (require)

/-! ## Rules -/

/-- What the operations of a stretch may return and do. -/
structure Rules where
  /-- What `get_user` may return. -/
  found : Option JsString → Option UserData → Prop
  /-- What may be passed to `set_user`. -/
  stored : Option JsString → UserPatch → Prop
  /-- What may be passed to `add_chat`. -/
  added : ChatData → Prop
  /-- Random numbers may be drawn. -/
  drawn : Prop

/-- A program keeps to the rules, and `Q` holds of what it ends with. -/
def Prog.Obeys {α : Type} (r : Rules) (Q : α → Prop) : Prog α → Prop
  | .pure a => Q a
  | .throw => True
  | .getUser id k => ∀ u, r.found id u → (k u).Obeys r Q
  | .setUser id user k => r.stored id user ∧ k.Obeys r Q
  | .getChat k => ∀ chats, (k chats).Obeys r Q
  | .addChat chat k => r.added chat ∧ k.Obeys r Q
  | .randomUUID k => r.drawn ∧ ∀ uuid, (k uuid).Obeys r Q
  | .now k => ∀ time, (k time).Obeys r Q
  | .call _ k => k.Obeys r Q
  | .startGpt k => k.Obeys r Q

section Obeys

variable {α β : Type} {r : Rules} {Q : α → Prop} {R : Next → Prop}

@[simp] theorem obeys_bind {prog : Prog β} {f : β → Prog α} :
    (prog >>= f).Obeys r Q ↔ prog.Obeys r fun b => (f b).Obeys r Q := by
  change (prog.bind f).Obeys r Q ↔ _
  induction prog with
  | pure b | throw => exact Iff.rfl
  | getUser id k ih => exact forall_congr' fun u => imp_congr_right fun _ => ih u
  | getChat k ih => exact forall_congr' ih
  | now k ih => exact forall_congr' ih
  | randomUUID k ih => exact and_congr_right fun _ => forall_congr' ih
  | setUser id user k ih => exact and_congr_right fun _ => ih
  | addChat chat k ih => exact and_congr_right fun _ => ih
  | call c k ih | startGpt k ih => exact ih

@[simp] theorem obeys_pure {a : α} : (pure a : Prog α).Obeys r Q ↔ Q a := Iff.rfl

@[simp] theorem obeys_require {o : Option α} :
    (require o).Obeys r Q ↔ ∀ a, o = some a → Q a := by
  cases o with
  | none => exact iff_of_true trivial fun a h => by cases h
  | some a => exact ⟨fun h b hb => Option.some.inj hb ▸ h, fun h => h a rfl⟩

@[simp] theorem obeys_userGet {id : Option JsString} {Q : Option UserData → Prop} :
    (userGet id).Obeys r Q ↔ ∀ u, r.found id u → Q u := Iff.rfl

@[simp] theorem obeys_userSet {id : Option JsString} {user : UserPatch} {Q : Unit → Prop} :
    (userSet id user).Obeys r Q ↔ r.stored id user ∧ Q () := Iff.rfl

@[simp] theorem obeys_chatGet {Q : List ChatData → Prop} :
    chatGet.Obeys r Q ↔ ∀ chats, Q chats := Iff.rfl

@[simp] theorem obeys_chatAdd {chat : ChatData} {Q : Unit → Prop} :
    (chatAdd chat).Obeys r Q ↔ r.added chat ∧ Q () := Iff.rfl

@[simp] theorem obeys_randomUUID {Q : Uuid → Prop} :
    randomUUID.Obeys r Q ↔ r.drawn ∧ ∀ uuid, Q uuid := Iff.rfl

@[simp] theorem obeys_dateNow {Q : ℕ → Prop} : dateNow.Obeys r Q ↔ ∀ time, Q time := Iff.rfl

@[simp] theorem obeys_startGpt {Q : Unit → Prop} : startGpt.Obeys r Q ↔ Q () := Iff.rfl

@[simp] theorem obeys_writeHeaders {status : ℕ} {headers : List (JsString × JsString)}
    {Q : Unit → Prop} : (writeHeaders status headers).Obeys r Q ↔ Q () := Iff.rfl

@[simp] theorem obeys_writeBody {data : List UInt8} {Q : Unit → Prop} :
    (writeBody data).Obeys r Q ↔ Q () := Iff.rfl

@[simp] theorem obeys_writeText {text : JsString} {Q : Unit → Prop} :
    (writeText text).Obeys r Q ↔ Q () := Iff.rfl

@[simp] theorem obeys_endBody {Q : Unit → Prop} : endBody.Obeys r Q ↔ Q () := Iff.rfl

@[simp] theorem obeys_redirect {url : JsString} {headers : List (JsString × JsString)} :
    (redirect url headers).Obeys r R ↔ R .done := Iff.rfl

@[simp] theorem obeys_notFound : notFound.Obeys r R ↔ R .done := Iff.rfl

end Obeys

/-! ## The handlers -/

section Handlers

variable {p : Platform} {router : Router} {ctx : HTTPContext} {r : Rules} {Q : Next → Prop}

theorem serveStatic_obeys (path : JsString) (hdone : Q .done)
    (hstream : ∀ chunks, Q (.await (.stream chunks))) : (router.serveStatic p path).Obeys r Q := by
  unfold Router.serveStatic
  dsimp only
  split
  · simpa using hdone
  split
  · split
    · simpa using hdone
    · simpa using hstream _
  · simpa using hdone

theorem streamNext_obeys (chunks : List (List UInt8)) (hdone : Q .done)
    (hstream : ∀ chunks, Q (.await (.stream chunks))) : (streamNext chunks).Obeys r Q := by
  cases chunks with
  | nil => simpa [streamNext] using hdone
  | cons chunk chunks => simpa [streamNext] using hstream chunks

/-- Behind the session check, `serve` gets a record whose token the request has. -/
theorem withSession_obeys {serve : UserData → Prog Next} (hdone : Q .done)
    (hserve : ∀ u, r.found ctx.userCookie (some u) → ctx.tokenCookie = u.token →
      (serve u).Obeys r Q) : (withSession ctx serve).Obeys r Q := by
  simp only [withSession, obeys_bind, obeys_userGet]
  intro found hfound
  split
  · simpa using hdone
  · rename_i u
    split
    · simpa using hdone
    · rename_i htoken
      exact hserve u hfound (not_not.mp htoken)

/-- `chatroom` behind its check adds the posted message under the record's `id`. -/
theorem serveChat_obeys (u : UserData) (hdone : Q .done)
    (hadded : ∀ message time, postedMessage ctx = some message →
      r.added { user := u.id, message := message, timestamp := time }) :
    (serveChat p router ctx u).Obeys r Q := by
  unfold serveChat
  split
  · simp only [obeys_bind, obeys_chatGet]
    intro chats
    split
    · split <;> simpa using hdone
    · simpa using hdone
  split
  · simp only [obeys_bind, obeys_require, obeys_dateNow, obeys_chatAdd]
    intro message hmessage time
    refine ⟨hadded message time hmessage, ?_⟩
    split <;> simpa using hdone
  · exact hdone

theorem serveChatStatus_obeys (u : UserData) (hdone : Q .done)
    (hchanged : ∀ size, Q (.await (.changed size))) : (serveChatStatus ctx u).Obeys r Q := by
  unfold serveChatStatus
  split
  · simpa using fun chats : List ChatData => hchanged chats.length
  · simpa using hdone

theorem changedNext_obeys (size : ℕ) (hdone : Q .done) : (changedNext size).Obeys r Q := by
  simpa [changedNext] using hdone

theorem reflect_obeys (hdone : Q .done) : (reflect p ctx).Obeys r Q := by
  simpa [reflect] using fun _ _ => hdone

theorem computeSqrt_obeys (hdone : Q .done) : (computeSqrt p).Obeys r Q := by
  simpa [computeSqrt] using hdone

/-- `register` gets to its digest with a name that has passed all its checks. -/
theorem register_obeys (hdone : Q .done) (hstream : ∀ chunks, Q (.await (.stream chunks)))
    (hdigest : ∀ username password, r.found ctx.userCookie none → ctx.method = js "POST" →
      field ctx.form (js "username") = some username →
      3 ≤ username.length ∧ username.length ≤ 32 →
      field ctx.form (js "password") = some password →
      8 ≤ password.length ∧ password.length ≤ 64 → username ≠ js "GPT" →
      r.found (some username) none → Q (.await (.register username password))) :
    (register p router ctx).Obeys r Q := by
  -- one split for each redirect in front of the digest
  simp only [register, obeys_bind, obeys_userGet]
  intro found hloggedOut
  split
  · simpa using hdone
  obtain rfl : found = none := by simpa using ‹¬found.isSome = true›
  split
  · exact serveStatic_obeys _ hdone hstream
  split
  · rename_i hpost
    simp only [obeys_bind, obeys_require]
    intro username husername
    split
    · simpa using hdone
    rename_i hlength
    simp only [obeys_bind, obeys_require]
    intro password hpassword
    split
    · simpa using hdone
    rename_i hlength'
    split
    · simpa using hdone
    rename_i hgpt
    simp only [obeys_bind, obeys_userGet]
    intro taken htaken
    split
    · simpa using hdone
    · obtain rfl : taken = none := by simpa using ‹¬taken.isSome = true›
      exact hdigest username password hloggedOut hpost husername (by omega) hpassword (by omega)
        hgpt htaken
  · simpa using hdone

/-- `login` gets to its digest with a record that is there. -/
theorem login_obeys (hdone : Q .done) (hstream : ∀ chunks, Q (.await (.stream chunks)))
    (hdigest : ∀ username password u, r.found username (some u) →
      Q (.await (.login username password u))) : (login p router ctx).Obeys r Q := by
  simp only [login, obeys_bind, obeys_userGet]
  intro found _
  split
  · simpa using hdone
  split
  · exact serveStatic_obeys _ hdone hstream
  split
  · simp only [obeys_bind, obeys_userGet]
    intro u hu
    split
    · simpa using hdone
    · simp only [obeys_bind, obeys_require]
      exact fun password _ => hdigest _ password _ hu
  · simpa using hdone

/-- `logout` takes the token out of a record whose token the request has. -/
theorem logout_obeys (hdone : Q .done)
    (hstored : ∀ u, r.found ctx.userCookie (some u) → ctx.tokenCookie = u.token →
      r.stored ctx.userCookie { u.spread with token := some none }) :
    (logout ctx).Obeys r Q := by
  simp only [logout, obeys_bind, obeys_userGet]
  intro found hfound
  split
  · rename_i u
    split
    · rename_i htoken
      simpa using And.intro (hstored u hfound htoken) hdone
    · simpa using hdone
  · simpa using hdone

/-- The rest of `register` stores a record for its name. -/
theorem registerDigest_obeys {username password : JsString} (hdone : Q .done)
    (hstored : r.stored (some username)
      { id := some (some username), password := some (some (passwordHash p password)) }) :
    (registerDigest p username password).Obeys r Q := by
  simpa [registerDigest] using And.intro hstored hdone

/-- The rest of `login` stores a token in the record that it has found, if the password is
right. -/
theorem loginDigest_obeys {username : Option JsString} {password : JsString} {u : UserData}
    (hdone : Q .done) (hdrawn : r.drawn)
    (hstored : ∀ token, u.password = some (passwordHash p password) →
      r.stored username { u.spread with token := some (some token) }) :
    (loginDigest p username password u).Obeys r Q := by
  unfold loginDigest
  split
  · simpa using hdone
  · rename_i hpassword
    simp only [obeys_bind, obeys_randomUUID, obeys_userSet, obeys_redirect]
    exact ⟨hdrawn, fun uuid => ⟨hstored _ (not_not.mp hpassword), hdone⟩⟩

end Handlers

end NetworkServers.Phase2
