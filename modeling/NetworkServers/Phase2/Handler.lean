import NetworkServers.Phase2.Context
import NetworkServers.Phase2.Data

/-!
# Handlers as Programs

A handler of the server is an `async` function: it runs without interruption from one
`await` to the next. One such stretch is a `Prog`, a program over the operations that
handlers use: the data files, the clock, random numbers and the calls that answer. It
ends with `Next`, which says whether the handler is done or what it waits for.

`Prog.run` is the meaning of a stretch in one process, where nothing comes between its
operations.
-/

namespace NetworkServers.Phase2

open NetworkServers.Js

/-! ## Programs -/

/-- A stretch of a handler that ends with a value. -/
inductive Prog (α : Type) where
  | pure (a : α)
  /-- An exception. -/
  | throw
  | getUser (id : Option JsString) (k : Option UserData → Prog α)
  | setUser (id : Option JsString) (user : UserPatch) (k : Prog α)
  | getChat (k : List ChatData → Prog α)
  | addChat (chat : ChatData) (k : Prog α)
  | randomUUID (k : Uuid → Prog α)
  | now (k : ℕ → Prog α)
  | call (c : Call) (k : Prog α)
  | startGpt (k : Prog α)

namespace Prog

variable {α β : Type}

/-- Sequencing. -/
def bind : Prog α → (α → Prog β) → Prog β
  | pure a, f => f a
  | throw, _ => throw
  | getUser id k, f => getUser id fun u => (k u).bind f
  | setUser id user k, f => setUser id user (k.bind f)
  | getChat k, f => getChat fun chats => (k chats).bind f
  | addChat chat k, f => addChat chat (k.bind f)
  | randomUUID k, f => randomUUID fun uuid => (k uuid).bind f
  | now k, f => now fun time => (k time).bind f
  | call c k, f => call c (k.bind f)
  | startGpt k, f => startGpt (k.bind f)

instance : Monad Prog where
  pure := Prog.pure
  bind := Prog.bind

/-- A value that is used as an object or a string, and throws where it is `undefined`. -/
def require : Option α → Prog α
  | some a => pure a
  | none => throw

end Prog

/-! ## Running -/

/-- What the surroundings answer to one stretch. -/
structure Env where
  now : ℕ
  uuid : Uuid

/-- What a stretch has done. -/
inductive Effect where
  | call (c : Call)
  | setUser (id : Option JsString) (user : UserPatch)
  | addChat (chat : ChatData)
  | randomUUID (uuid : Uuid)
  | startGpt
deriving DecidableEq

/-- The result of a stretch; `none` if it has thrown. -/
structure Outcome (α : Type) where
  store : Store
  effects : List Effect
  result : Option α

/-- Put an effect in front. -/
def Outcome.after {α : Type} (o : Outcome α) (effects : List Effect) : Outcome α :=
  { o with effects := effects ++ o.effects }

namespace Prog

variable {α β : Type}

/-- Run a stretch on the store. -/
def run (env : Env) : Prog α → Store → Outcome α
  | pure a, s => { store := s, effects := [], result := some a }
  | throw, s => { store := s, effects := [], result := none }
  | getUser id k, s => (k (Phase2.getUser s.users id)).run env s
  | setUser id user k, s =>
    (k.run env { s with users := Phase2.setUser s.users id user }).after [.setUser id user]
  | getChat k, s => (k (Phase2.getChat s.chats)).run env s
  | addChat chat k, s =>
    (k.run env { s with chats := Phase2.addChat s.chats chat }).after [.addChat chat]
  | randomUUID k, s => ((k env.uuid).run env s).after [.randomUUID env.uuid]
  | now k, s => (k env.now).run env s
  | call c k, s => (k.run env s).after [.call c]
  | startGpt k, s => (k.run env s).after [.startGpt]

end Prog

/-- The calls among the effects. -/
def callsOf (effects : List Effect) : List Call :=
  effects.filterMap fun
    | .call c => some c
    | _ => none

/-! ## Operations -/

/-- `user.get(id)`. -/
def userGet (id : Option JsString) : Prog (Option UserData) := .getUser id .pure

/-- `user.set(id, user)`. -/
def userSet (id : Option JsString) (user : UserPatch) : Prog Unit := .setUser id user (.pure ())

/-- `chat.get()`. -/
def chatGet : Prog (List ChatData) := .getChat .pure

/-- `chat.add(chat)`. -/
def chatAdd (chat : ChatData) : Prog Unit := .addChat chat (.pure ())

/-- `webcrypto.randomUUID()`. -/
def randomUUID : Prog Uuid := .randomUUID .pure

/-- `Date.now()`. -/
def dateNow : Prog ℕ := .now .pure

/-- `setTimeout(gpt_reply, 500)`. -/
def startGpt : Prog Unit := .startGpt (.pure ())

/-! ## Answers -/

/-- What a handler waits for. -/
inductive Await where
  /-- The digest in `register`, of a request for this name and password. -/
  | register (username password : JsString)
  /-- The digest in `login`, with the record that was found. -/
  | login (username : Option JsString) (password : JsString) (u : UserData)
  /-- The next chunk of a file. -/
  | stream (chunks : List (List UInt8))
  /-- `chat.changed()`, called when there were `size` records. -/
  | changed (size : ℕ)
deriving DecidableEq

/-- How a stretch ends. -/
inductive Next where
  | done
  | await (a : Await)
deriving DecidableEq

/-- `ctx.write_headers`. -/
def writeHeaders (status : ℕ) (headers : List (JsString × JsString) := []) : Prog Unit :=
  .call (.writeHeaders status headers) (.pure ())

/-- `ctx.write_body` of bytes. -/
def writeBody (data : List UInt8) : Prog Unit := .call (.writeBody data) (.pure ())

/-- `ctx.write_body` of a string. -/
def writeText (text : JsString) : Prog Unit := writeBody (utf8Encode text)

/-- `ctx.end_body`. -/
def endBody : Prog Unit := .call .endBody (.pure ())

/-- `return ctx.redirect(url, headers)`. -/
def redirect (url : JsString) (headers : List (JsString × JsString) := []) : Prog Next := do
  writeHeaders 302 ((js "Location", url) :: headers)
  endBody
  return .done

/-- `return ctx.not_found()`. -/
def notFound : Prog Next := do
  writeHeaders 404 [(js "Content-Type", js "text/plain")]
  writeText (js "Not Found")
  endBody
  return .done

/-! ## What runs do -/

section Run

variable {α β : Type} (env : Env) (s : Store)

@[simp] theorem Outcome.after_nil (o : Outcome α) : o.after [] = o := rfl

/-- Running two stretches in sequence. -/
theorem Prog.run_bind (prog : Prog α) (f : α → Prog β) :
    (prog >>= f).run env s =
      match (prog.run env s).result with
      | some a => ((f a).run env (prog.run env s).store).after (prog.run env s).effects
      | none => { store := (prog.run env s).store, effects := (prog.run env s).effects
                  result := none } := by
  change (prog.bind f).run env s = _
  induction prog generalizing s with
  | pure a => rfl
  | throw => rfl
  | getUser id k ih => exact ih _ s
  | getChat k ih => exact ih _ s
  | now k ih => exact ih _ s
  -- the other operations add an effect in front of those of the rest
  | setUser id user k ih | addChat chat k ih | call c k ih | startGpt k ih =>
    simp only [Prog.bind, Prog.run, ih]
    cases h : (k.run env _).result <;> simp [Outcome.after, h]
  | randomUUID k ih =>
    simp only [Prog.bind, Prog.run, ih]
    cases h : ((k env.uuid).run env s).result <;> simp [Outcome.after, h]

@[simp] theorem run_pure (a : α) :
    (pure a : Prog α).run env s = { store := s, effects := [], result := some a } := rfl

@[simp] theorem run_require_some (a : α) :
    (Prog.require (some a)).run env s = { store := s, effects := [], result := some a } := rfl

@[simp] theorem run_require_none :
    (Prog.require (none : Option α)).run env s =
      { store := s, effects := [], result := none } := rfl

@[simp] theorem run_userGet (id : Option JsString) :
    (userGet id).run env s =
      { store := s, effects := [], result := some (getUser s.users id) } := rfl

@[simp] theorem run_chatGet :
    chatGet.run env s = { store := s, effects := [], result := some s.chats } := rfl

@[simp] theorem run_dateNow :
    dateNow.run env s = { store := s, effects := [], result := some env.now } := rfl

@[simp] theorem run_randomUUID :
    randomUUID.run env s =
      { store := s, effects := [.randomUUID env.uuid], result := some env.uuid } := rfl

@[simp] theorem run_userSet (id : Option JsString) (user : UserPatch) :
    (userSet id user).run env s =
      { store := { s with users := setUser s.users id user }
        effects := [.setUser id user], result := some () } := rfl

@[simp] theorem run_chatAdd (chat : ChatData) :
    (chatAdd chat).run env s =
      { store := { s with chats := addChat s.chats chat }
        effects := [.addChat chat], result := some () } := rfl

@[simp] theorem run_startGpt :
    startGpt.run env s = { store := s, effects := [.startGpt], result := some () } := rfl

@[simp] theorem run_writeHeaders (status : ℕ) (headers : List (JsString × JsString)) :
    (writeHeaders status headers).run env s =
      { store := s, effects := [.call (.writeHeaders status headers)], result := some () } := rfl

@[simp] theorem run_writeBody (data : List UInt8) :
    (writeBody data).run env s =
      { store := s, effects := [.call (.writeBody data)], result := some () } := rfl

@[simp] theorem run_endBody :
    endBody.run env s = { store := s, effects := [.call .endBody], result := some () } := rfl

/-- The effects of a complete response. -/
def responseCalls (status : ℕ) (headers : List (JsString × JsString))
    (bodies : List (List UInt8)) : List Effect :=
  .call (.writeHeaders status headers) ::
    (bodies.map fun data => .call (.writeBody data)) ++ [.call .endBody]

/-- The effects of a redirect. -/
def redirectCalls (url : JsString) (headers : List (JsString × JsString) := []) : List Effect :=
  responseCalls 302 ((js "Location", url) :: headers) []

@[simp] theorem run_redirect (url : JsString) (headers : List (JsString × JsString)) :
    (redirect url headers).run env s =
      { store := s, effects := redirectCalls url headers, result := some .done } := rfl

/-- The effects of `not_found`. -/
def notFoundCalls : List Effect :=
  responseCalls 404 [(js "Content-Type", js "text/plain")] [utf8Encode (js "Not Found")]

@[simp] theorem run_notFound :
    notFound.run env s = { store := s, effects := notFoundCalls, result := some .done } := rfl

end Run

end NetworkServers.Phase2
