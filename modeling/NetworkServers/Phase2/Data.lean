import NetworkServers.Library.JsObject

/-!
# The Data Files

Translation of `src/phase2/src/server/data/user.ts` and `chat.ts`, on the values that
the two JSON files hold. `JSON.stringify` leaves out fields that are `undefined`, so a
stored record has no such fields, while a record in memory may have them.
-/

namespace NetworkServers.Phase2

open NetworkServers.Js

/-! ## Users -/

/-- `UserData` as it is stored; `none` is a field that the record does not have. -/
structure UserData where
  id : Option JsString := none
  password : Option JsString := none
  token : Option JsString := none
deriving DecidableEq, Repr

/-- A record that is passed to `set_user`: a field may be left out (`none`) or be there
and `undefined` (`some none`). -/
structure UserPatch where
  id : Option (Option JsString) := none
  password : Option (Option JsString) := none
  token : Option (Option JsString) := none
deriving DecidableEq, Repr

/-- `{ ...user }`. -/
def UserData.spread (user : UserData) : UserPatch :=
  { id := user.id.map some, password := user.password.map some, token := user.token.map some }

/-- `Object.assign(user, patch)`, as it is stored. -/
def UserData.assign (user : UserData) (patch : UserPatch) : UserData :=
  { id := patch.id.getD user.id
    password := patch.password.getD user.password
    token := patch.token.getD user.token }

/-- The user table, `Record<string, UserData>`. -/
abbrev UserTable := Dict JsString UserData

/-- `get_user`. A key that objects inherit gives an object or a function without any of
the fields of a record. -/
def getUser (table : UserTable) (id : Option JsString) : Option UserData :=
  match property table (propertyKey id) with
  | .own user => some user
  | .inherited => some {}
  | .missing => none

/-- `set_user`. Fields assigned to an inherited object are not part of the table. -/
def setUser (table : UserTable) (id : Option JsString) (user : UserPatch) : UserTable :=
  match property table (propertyKey id) with
  | .own stored => table.set (propertyKey id) (stored.assign user)
  | .inherited => table
  | .missing => table.set (propertyKey id) (({} : UserData).assign user)

/-! ## Chats -/

/-- `ChatData`. The user of a record whose `user` was `undefined` is missing. -/
structure ChatData where
  user : Option JsString
  message : JsString
  timestamp : ℕ
deriving DecidableEq, Repr

/-- `get_chat()`. -/
def getChat (chats : List ChatData) : List ChatData := chats

/-- `add_chat`. -/
def addChat (chats : List ChatData) (chat : ChatData) : List ChatData := chats ++ [chat]

/-! ## Both files -/

/-- The contents of `data/user.json` and `data/chat.json`. -/
structure Store where
  users : UserTable
  chats : List ChatData

/-- No data files yet. -/
def Store.initial : Store := { users := Dict.empty, chats := [] }

/-! ## Lookups -/

/-- A record that is found is the stored one, or an inherited object without fields. -/
theorem getUser_cases {table : UserTable} {id : Option JsString} {u : UserData}
    (h : getUser table id = some u) :
    table.get? (propertyKey id) = some u ∨
      (table.get? (propertyKey id) = none ∧ propertyKey id ∈ objectPrototype ∧ u = {}) := by
  unfold getUser property at h
  cases hget : table.get? (propertyKey id) with
  | some user =>
    rw [hget] at h
    exact .inl h
  | none =>
    rw [hget] at h
    by_cases hkey : propertyKey id ∈ objectPrototype
    · simp only [if_pos hkey, Option.some.injEq] at h
      exact .inr ⟨rfl, hkey, h.symm⟩
    · simp only [if_neg hkey] at h
      cases h

/-- A record that is not found is not stored either. -/
theorem getUser_none {table : UserTable} {id : Option JsString} (h : getUser table id = none) :
    table.get? (propertyKey id) = none ∧ propertyKey id ∉ objectPrototype := by
  unfold getUser property at h
  cases hget : table.get? (propertyKey id) with
  | some user =>
    rw [hget] at h
    cases h
  | none =>
    refine ⟨rfl, fun hkey => ?_⟩
    rw [hget] at h
    simp only [if_pos hkey] at h
    cases h

theorem getUser_own {table : UserTable} {id : Option JsString} {u : UserData}
    (h : table.get? (propertyKey id) = some u) : getUser table id = some u := by
  rw [getUser, property_own h]

/-- `set_user` changes the record of its own key only. -/
theorem get?_setUser_ne {table : UserTable} {id : Option JsString} {user : UserPatch}
    {key : JsString} (h : key ≠ propertyKey id) :
    (setUser table id user).get? key = table.get? key := by
  unfold setUser
  split
  · exact Dict.get?_set_ne _ _ h
  · rfl
  · exact Dict.get?_set_ne _ _ h

/-- `set_user` merges into a stored record. -/
theorem get?_setUser_own {table : UserTable} {id : Option JsString} {user : UserPatch}
    {u : UserData} (h : table.get? (propertyKey id) = some u) :
    (setUser table id user).get? (propertyKey id) = some (u.assign user) := by
  rw [setUser, property_own h]
  exact Dict.get?_set_self _ _ _

/-- `set_user` stores a record under a free name. -/
theorem get?_setUser_missing {table : UserTable} {id : Option JsString} {user : UserPatch}
    (h : table.get? (propertyKey id) = none) (hkey : propertyKey id ∉ objectPrototype) :
    (setUser table id user).get? (propertyKey id) = some (({} : UserData).assign user) := by
  rw [setUser, property_missing h hkey]
  exact Dict.get?_set_self _ _ _

theorem setUser_inherited {table : UserTable} {id : Option JsString} {user : UserPatch}
    (h : table.get? (propertyKey id) = none) (hkey : propertyKey id ∈ objectPrototype) :
    setUser table id user = table := by
  rw [setUser, property_inherited h hkey]

/-- `set_user` removes no record. -/
theorem get?_setUser_of_some {table : UserTable} {id : Option JsString} {user : UserPatch}
    {key : JsString} {u : UserData} (h : table.get? key = some u) :
    ∃ u', (setUser table id user).get? key = some u' := by
  by_cases hkey : key = propertyKey id
  · subst hkey
    exact ⟨_, get?_setUser_own h⟩
  · exact ⟨u, (get?_setUser_ne hkey).trans h⟩

end NetworkServers.Phase2
