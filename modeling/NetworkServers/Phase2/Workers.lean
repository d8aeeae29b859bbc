import NetworkServers.Library.ReadModifyWrite
import NetworkServers.Phase2.Data

/-!
# Workers on the Same Data Files

`src/phase2/src/index.ts` forks several workers, which share `data/user.json` and
`data/chat.json`. Inside of one worker `add_chat` and `set_user` run without
interruption; across workers each of them is a read of a whole file and, later, a write
of the whole file.
-/

namespace NetworkServers.Phase2

open NetworkServers.Js NetworkServers.Runs NetworkServers.ReadModifyWrite

/-! ## The updates -/

/-- The calls that change a data file. -/
inductive FileUpdate where
  | addChat (chat : ChatData)
  | setUser (id : Option JsString) (user : UserPatch)
deriving DecidableEq

/-- The data in the file that a call works on. -/
def FileUpdate.Contents : FileUpdate → Type
  | .addChat _ => List ChatData
  | .setUser _ _ => UserTable

/-- `retrieve()`. -/
def FileUpdate.retrieve : (call : FileUpdate) → Store → call.Contents
  | .addChat _, s => s.chats
  | .setUser _ _, s => s.users

/-- `persist(data)` of what the call has made of the retrieved data. -/
def FileUpdate.persist : (call : FileUpdate) → call.Contents → Store → Store
  | .addChat chat, chats, s => { s with chats := Phase2.addChat chats chat }
  | .setUser id user, users, s => { s with users := Phase2.setUser users id user }

/-- The updates of the data files. -/
def fileUpdates : Updates Store FileUpdate where
  Contents := FileUpdate.Contents
  retrieve := FileUpdate.retrieve
  persist := FileUpdate.persist

/-- Without interruption, `add_chat` and `set_user` are what a single process runs. -/
theorem whole_addChat (chat : ChatData) (s : Store) :
    fileUpdates.whole (.addChat chat) s = { s with chats := addChat s.chats chat } := rfl

theorem whole_setUser (id : Option JsString) (user : UserPatch) (s : Store) :
    fileUpdates.whole (.setUser id user) s = { s with users := setUser s.users id user } := rfl

/-- The record that a call adds to the chat history. -/
def FileUpdate.chat? : FileUpdate → Option ChatData
  | .addChat chat => some chat
  | .setUser _ _ => none

/-- Fields assigned to an inherited object are not stored. -/
def FileUpdate.Writable : FileUpdate → Store → Prop
  | .addChat _, _ => True
  | .setUser id _, s =>
    (∃ u, s.users.get? (propertyKey id) = some u) ∨ propertyKey id ∉ objectPrototype

/-! ## Fields of records -/

/-- The fields of a user record. -/
inductive UserField where
  | id
  | password
  | token

/-- A field of a stored record. -/
def UserData.get (u : UserData) : UserField → Option JsString
  | .id => u.id
  | .password => u.password
  | .token => u.token

/-- A field of a record that is passed to `set_user`, if it has it. -/
def UserPatch.get (user : UserPatch) : UserField → Option (Option JsString)
  | .id => user.id
  | .password => user.password
  | .token => user.token

@[simp] theorem get_assign (u : UserData) (user : UserPatch) (f : UserField) :
    (u.assign user).get f = (user.get f).getD (u.get f) := by
  cases f <;> rfl

/-- A record is stored under a key with this value of a field. -/
def HasField (users : UserTable) (key : JsString) (f : UserField) (v : Option JsString) : Prop :=
  ∃ u, users.get? key = some u ∧ u.get f = v

section Fields

variable {users : UserTable} {id : Option JsString} {user : UserPatch} {f : UserField}
  {v : Option JsString}

/-- `set_user` stores the fields that it is given. -/
theorem hasField_setUser
    (hid : (∃ u, users.get? (propertyKey id) = some u) ∨ propertyKey id ∉ objectPrototype)
    (hf : user.get f = some v) : HasField (setUser users id user) (propertyKey id) f v := by
  cases hget : users.get? (propertyKey id) with
  | some u => exact ⟨_, get?_setUser_own hget, by rw [get_assign, hf, Option.getD_some]⟩
  | none =>
    have hin := hid.resolve_left fun ⟨u, hu⟩ => by
      rw [hget] at hu
      cases hu
    exact ⟨_, get?_setUser_missing hget hin, by rw [get_assign, hf, Option.getD_some]⟩

/-- `set_user` keeps all other fields. -/
theorem HasField.setUser {key : JsString} (h : HasField users key f v)
    (hf : propertyKey id = key → user.get f = none) : HasField (setUser users id user) key f v := by
  obtain ⟨u, hget, hv⟩ := h
  by_cases hkey : key = propertyKey id
  · rw [hkey] at hget ⊢
    exact ⟨_, get?_setUser_own hget, by rw [get_assign, hf hkey.symm, Option.getD_none, hv]⟩
  · exact ⟨u, (get?_setUser_ne hkey).trans hget, hv⟩

end Fields

/-! ## No lost update -/

/-- The chat history holds the records of all completed `add_chat` calls in their order,
and the user table every field of a completed `set_user` call that no later one for the
same record has overwritten. -/
structure NoLostUpdate (s : Store) (done : List FileUpdate) : Prop where
  chats : (done.filterMap FileUpdate.chat?).Sublist s.chats
  fields : ∀ before id user after f v, done = before ++ .setUser id user :: after →
    user.get f = some v →
    (∀ id' user', .setUser id' user' ∈ after → propertyKey id' = propertyKey id →
      user'.get f = none) →
    HasField s.users (propertyKey id) f v

/-- A whole update loses nothing. -/
theorem NoLostUpdate.whole {s : Store} {done : List FileUpdate} (h : NoLostUpdate s done)
    {call : FileUpdate} (hready : call.Writable s) :
    NoLostUpdate (fileUpdates.whole call s) (done ++ [call]) := by
  cases call with
  | addChat chat =>
    rw [whole_addChat]
    constructor
    · rw [List.filterMap_append]
      exact h.chats.append (List.Sublist.refl _)
    · intro before id user after f v hdone hf hlater
      rcases snoc_eq_append_cons hdone with ⟨-, hlast⟩ | ⟨after', rfl, hbefore⟩
      · cases hlast
      · exact h.fields before id user after' f v hbefore hf fun id' user' hmem =>
          hlater id' user' (List.mem_append_left _ hmem)
  | setUser id₀ user₀ =>
    rw [whole_setUser]
    constructor
    · rw [List.filterMap_append, List.filterMap_cons_none rfl, List.filterMap_nil, List.append_nil]
      exact h.chats
    · intro before id user after f v hdone hf hlater
      rcases snoc_eq_append_cons hdone with ⟨-, hlast⟩ | ⟨after', rfl, hbefore⟩
      · -- the call has just written the field
        obtain ⟨rfl, rfl⟩ := FileUpdate.setUser.inj hlast
        exact hasField_setUser hready hf
      · refine HasField.setUser (h.fields before id user after' f v hbefore hf
          fun id' user' hmem => hlater id' user' (List.mem_append_left _ hmem)) fun hkey => ?_
        exact hlater id₀ user₀ (List.mem_append_right _ List.mem_cons_self) hkey

section Runs

variable {ω : Type} [DecidableEq ω]

/-- **No update is lost** in a run of any number of workers, from any data files, if
every `persist` finds the file as the call's own `retrieve` has found it, and no
`set_user` is for a name that only an inherited object has. -/
theorem noLostUpdate_undisturbed {s : Store} {ls : List (UpdateStep ω FileUpdate)}
    {t : Workers ω fileUpdates}
    (hrun : Run (Guarded (fun s l => Undisturbed s l ∧ Ready FileUpdate.Writable s l) WorkerSteps)
      (Workers.initial s) ls t) : NoLostUpdate t.store t.done := by
  refine run_undisturbed ⟨List.nil_sublist _, ?_⟩ (fun s done call h hready => ?_) hrun
  · intro before id user after f v hdone
    exact absurd hdone (by simp)
  · exact h.whole hready

/-- A single worker loses nothing, so the operations of one process are the whole
updates. -/
theorem noLostUpdate_single_worker [Subsingleton ω] {s : Store}
    {ls : List (UpdateStep ω FileUpdate)} {t : Workers ω fileUpdates}
    (hrun : Run (Guarded (Ready FileUpdate.Writable) WorkerSteps) (Workers.initial s) ls t) :
    NoLostUpdate t.store t.done := by
  refine run_undisturbed ⟨List.nil_sublist _, ?_⟩ (fun s done call h hready => h.whole hready)
    (run_single_worker hrun).1
  intro before id user after f v hdone
  exact absurd hdone (by simp)

end Runs

/-- What Alice and Bob post in the chat. -/
def aliceHello : ChatData := { user := some (js "alice"), message := js "Hello", timestamp := 1 }

def bobHello : ChatData := { user := some (js "bob"), message := js "Hi", timestamp := 2 }

/-- Two workers whose calls overlap on different files lose nothing. -/
theorem noLostUpdate_undisturbed_files :
    ∃ t : Workers Bool fileUpdates, t.done.length = 2 ∧ NoLostUpdate t.store t.done := by
  have hretrieve : ∀ (s : Workers Bool fileUpdates) w call, Undisturbed s (.retrieve w call) ∧
      Ready FileUpdate.Writable s (.retrieve w call) := fun _ _ _ => ⟨trivial, trivial⟩
  have hbob : propertyKey (some (js "bob")) ∉ objectPrototype := by decide
  have hidle := @Run.nil _ _ (Guarded (fun s l => Undisturbed s l ∧ Ready FileUpdate.Writable s l)
    WorkerSteps) (Workers.initial Store.initial : Workers Bool fileUpdates)
  have hboth := (hidle.snoc_get (hretrieve _ true (.addChat aliceHello)) rfl).snoc_get
    (hretrieve _ false (.setUser (some (js "bob")) { token := some none })) rfl
  have halice := hboth.snoc_get (l := .persist true)
    ⟨by rintro call contents ⟨⟩; rfl, by rintro call contents ⟨⟩; trivial⟩ rfl
  have hdone := halice.snoc_get (l := .persist false)
    ⟨by rintro call contents ⟨⟩; rfl, by rintro call contents ⟨⟩; exact .inr hbob⟩ rfl
  exact ⟨_, rfl, noLostUpdate_undisturbed hdone⟩

/-- Two workers that retrieve the chat history before either of them has written it. -/
def aliceAndBob : List (UpdateStep Bool FileUpdate) :=
  [.retrieve true (.addChat aliceHello), .retrieve false (.addChat bobHello), .persist true,
    .persist false]

/-- The second write erases what the first one has added. -/
theorem not_noLostUpdate_aliceAndBob :
    ¬∀ (ω : Type) [DecidableEq ω] (s : Store) (ls : List (UpdateStep ω FileUpdate))
      (t : Workers ω fileUpdates), Run WorkerSteps (Workers.initial s) ls t →
        NoLostUpdate t.store t.done := by
  intro hnoLostUpdate
  have hrun : ((aliceAndBob.foldlM Workers.step
      (Workers.initial Store.initial : Workers Bool fileUpdates)).map
      fun t => (t.store.chats, t.done)) =
      some ([bobHello], [.addChat aliceHello, .addChat bobHello]) := by decide
  obtain ⟨t, ht, hfields⟩ := Option.map_eq_some_iff.mp hrun
  obtain ⟨hchats, hdone⟩ := Prod.mk.inj hfields
  have hsublist := (hnoLostUpdate Bool Store.initial aliceAndBob t (Run.of_foldlM ht)).chats
  rw [hchats, hdone] at hsublist
  exact absurd hsublist (by decide)

end NetworkServers.Phase2
