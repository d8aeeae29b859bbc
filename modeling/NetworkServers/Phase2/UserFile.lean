import NetworkServers.Phase2.DataFiles

/-!
# The User File

`get_user` and `set_user` of `src/phase2/src/server/data/user.ts` on the text of the file.
The table is a plain object, so that a lookup also finds what objects inherit, and a record
may be merged into `Object.prototype`, where it changes the lookups that follow in the same
process. As long as `Object.prototype` has not been given a string, the operations are those
on the table.
-/

namespace NetworkServers.Phase2

open NetworkServers.Js

/-! ## Fields -/

/-- `user[name]` for an own field. -/
def UserData.field (user : UserData) (name : JsString) : Option JsString :=
  if name = js "id" then user.id
  else if name = js "password" then user.password
  else if name = js "token" then user.token
  else none

/-- `user[name]` for an own field, which may be there and `undefined`. -/
def UserPatch.field (user : UserPatch) (name : JsString) : Option (Option JsString) :=
  if name = js "id" then user.id
  else if name = js "password" then user.password
  else if name = js "token" then user.token
  else none

/-- `Object.assign(user, patch)`, as it is in memory. -/
def UserPatch.assign (user patch : UserPatch) : UserPatch :=
  { id := patch.id.or user.id
    password := patch.password.or user.password
    token := patch.token.or user.token }

theorem UserData.field_assign (user : UserData) (patch : UserPatch) (name : JsString) :
    (user.assign patch).field name = (patch.field name).getD (user.field name) := by
  unfold UserData.field UserPatch.field UserData.assign
  split_ifs <;> rfl

theorem UserPatch.field_assign (user patch : UserPatch) (name : JsString) :
    (user.assign patch).field name = (patch.field name).or (user.field name) := by
  unfold UserPatch.field UserPatch.assign
  split_ifs <;> rfl

theorem UserData.field_empty (name : JsString) : ({} : UserData).field name = none := by
  unfold UserData.field
  split_ifs <;> rfl

theorem UserPatch.field_empty (name : JsString) : ({} : UserPatch).field name = none := by
  unfold UserPatch.field
  split_ifs <;> rfl

/-- No member of `Object.prototype` has the name of a field. -/
theorem UserPatch.field_member (user : UserPatch) {name : JsString} (h : name ∈ objectPrototype) :
    user.field name = none := by
  have hnames : ∀ name ∈ objectPrototype,
      name ≠ js "id" ∧ name ≠ js "password" ∧ name ≠ js "token" := by decide
  obtain ⟨hid, hpassword, htoken⟩ := hnames name h
  rw [UserPatch.field, if_neg hid, if_neg hpassword, if_neg htoken]

/-! ## The store -/

/-- The user store of a process: the data file, and the fields that `Object.prototype` has
been given. -/
structure UserStore where
  file : FileBytes
  inherited : UserPatch

/-- There is no file. -/
def UserStore.initial : UserStore := { file := none, inherited := {} }

/-- What looking up an id gives. -/
inductive Found where
  | undefined
  /-- A record of the table. -/
  | record (properties : List (JsString × Json))
  /-- A string that `Object.prototype` has been given. -/
  | text (s : JsString)
  /-- An object or a function, inherited from `Object.prototype`. -/
  | member (name : JsString)

/-- `data[id]` where the table does not have the id. -/
def UserStore.inheritedValue (s : UserStore) (id : JsString) : Found :=
  match s.inherited.field id with
  | some (some text) => .text text
  | some none => .undefined
  | none => if objectPrototype.contains id then .member id else .undefined

/-- `data[id]`, `none` where the table has something else than a record. -/
def UserStore.lookup (s : UserStore) (data : List (JsString × Json)) (id : JsString) :
    Option Found :=
  match Json.getProperty data id with
  | some (.object properties) => some (.record properties)
  | some _ => none
  | none => some (s.inheritedValue id)

/-- `retrieve()`, `none` where it throws or the file holds something else than a table. -/
def retrieveTable (file : FileBytes) : Option (List (JsString × Json)) := do
  match ← retrieveUsers file with
  | .object data => some data
  | _ => none

/-- `get_user(id)`. -/
def getUserFile (s : UserStore) (id : JsString) : Option Found := do
  let data ← retrieveTable s.file
  s.lookup data id

/-- Assign a field of a record. A field that is `undefined` is not written. -/
def assignProperty (name : JsString) (value : Option (Option JsString))
    (properties : List (JsString × Json)) : List (JsString × Json) :=
  match value with
  | some (some text) => Json.setProperty name (.string text) properties
  | some none => Json.removeProperty name properties
  | none => properties

/-- `Object.assign(record, user)`, as it is written. -/
def assignProperties (properties : List (JsString × Json)) (user : UserPatch) :
    List (JsString × Json) :=
  assignProperty (js "token") user.token
    (assignProperty (js "password") user.password
      (assignProperty (js "id") user.id properties))

/-- A record as it is written. -/
def UserPatch.toJson (user : UserPatch) : Json := .object (assignProperties [] user)

/-- The rest of `set_user` behind the lookup of `data[id]`. -/
def UserStore.write (s : UserStore) (data : List (JsString × Json)) (id : JsString)
    (user : UserPatch) : Found → UserStore
  | .undefined | .text [] =>
    { s with file := some (persist (.object (Json.setProperty id user.toJson data))) }
  | .record properties =>
    let record := Json.object (assignProperties properties user)
    { s with file := some (persist (.object (Json.setProperty id record data))) }
  -- the string is wrapped into an object that is not part of the table
  | .text _ => { s with file := some (persist (.object data)) }
  | .member name =>
    { file := some (persist (.object data))
      inherited := if name = js "__proto__" then s.inherited.assign user else s.inherited }

/-- `set_user(id, user)`. -/
def setUserFile (s : UserStore) (id : JsString) (user : UserPatch) : Option UserStore := do
  let data ← retrieveTable s.file
  let found ← s.lookup data id
  return s.write data id user found

/-! ## Records -/

/-- The properties of a record in the file are its fields. -/
structure Stores (properties : List (JsString × Json)) (user : UserData) : Prop where
  enumerated : Json.Enumerated properties
  fields : ∀ name, Json.getProperty properties name = (user.field name).map Json.string

theorem Stores.valid {properties : List (JsString × Json)} {user : UserData}
    (h : Stores properties user) : (Json.object properties).Valid := by
  apply Json.Valid.object h.enumerated
  intro p hp
  have hvalue := h.fields p.1
  rw [Json.getProperty_of_mem h.enumerated hp] at hvalue
  obtain ⟨text, -, htext⟩ := Option.map_eq_some_iff.mp hvalue.symm
  rw [← htext]
  exact .string text

theorem enumerated_assignProperty {properties : List (JsString × Json)}
    (h : Json.Enumerated properties) (name : JsString) (value : Option (Option JsString)) :
    Json.Enumerated (assignProperty name value properties) := by
  unfold assignProperty
  split
  · exact h.setProperty _ _
  · exact h.removeProperty _
  · exact h

theorem getProperty_assignProperty_self (properties : List (JsString × Json)) (name : JsString)
    (value : Option (Option JsString)) :
    Json.getProperty (assignProperty name value properties) name =
      (value.map fun text => text.map Json.string).getD (Json.getProperty properties name) := by
  unfold assignProperty
  split
  · exact Json.getProperty_setProperty_self _ _ _
  · exact Json.getProperty_removeProperty_self _ _
  · rfl

theorem getProperty_assignProperty_ne (properties : List (JsString × Json)) {name key : JsString}
    (value : Option (Option JsString)) (h : key ≠ name) :
    Json.getProperty (assignProperty name value properties) key =
      Json.getProperty properties key := by
  unfold assignProperty
  split
  · exact Json.getProperty_setProperty_ne _ h _
  · exact Json.getProperty_removeProperty_ne _ h
  · rfl

/-- Each property is assigned from the field of its name. -/
theorem getProperty_assignProperties (properties : List (JsString × Json)) (user : UserPatch)
    (key : JsString) :
    Json.getProperty (assignProperties properties user) key =
      ((user.field key).map fun text => text.map Json.string).getD
        (Json.getProperty properties key) := by
  have hnames : js "password" ≠ js "id" ∧ js "token" ≠ js "id" ∧ js "token" ≠ js "password" ∧
      js "id" ≠ js "password" ∧ js "id" ≠ js "token" ∧ js "password" ≠ js "token" := by decide
  obtain ⟨hpi, hti, htp, hip, hit, hpt⟩ := hnames
  unfold assignProperties UserPatch.field
  -- the assignments to the other fields are passed by
  split
  · rename_i heq
    rw [heq, getProperty_assignProperty_ne _ _ hit, getProperty_assignProperty_ne _ _ hip,
      getProperty_assignProperty_self]
  · rename_i hid
    split
    · rename_i heq
      rw [heq, getProperty_assignProperty_ne _ _ hpt, getProperty_assignProperty_self,
        getProperty_assignProperty_ne _ _ hpi]
    · rename_i hpassword
      split
      · rename_i heq
        rw [heq, getProperty_assignProperty_self, getProperty_assignProperty_ne _ _ htp,
          getProperty_assignProperty_ne _ _ hti]
      · rename_i htoken
        rw [getProperty_assignProperty_ne _ _ htoken, getProperty_assignProperty_ne _ _ hpassword,
          getProperty_assignProperty_ne _ _ hid]
        rfl

/-- **Assigning** to a record that is stored stores the merged record. -/
theorem Stores.assign {properties : List (JsString × Json)} {u : UserData}
    (h : Stores properties u) (user : UserPatch) :
    Stores (assignProperties properties user) (u.assign user) where
  enumerated := enumerated_assignProperty
    (enumerated_assignProperty (enumerated_assignProperty h.enumerated _ _) _ _) _ _
  fields := by
    intro name
    rw [getProperty_assignProperties, h.fields, UserData.field_assign]
    cases user.field name <;> rfl

theorem stores_empty : Stores [] {} where
  enumerated := List.Pairwise.nil
  fields := by
    intro name
    rw [UserData.field_empty]
    rfl

/-! ## Tables -/

/-- The properties of the table are the records. -/
structure TableOf (data : List (JsString × Json)) (users : UserTable) : Prop where
  enumerated : Json.Enumerated data
  own : ∀ {id u}, users.get? id = some u →
    ∃ properties, Json.getProperty data id = some (.object properties) ∧ Stores properties u
  missing : ∀ {id}, users.get? id = none → Json.getProperty data id = none

/-- The file holds these records. -/
def UserFile (file : FileBytes) (users : UserTable) : Prop :=
  ∃ data, retrieveTable file = some data ∧ TableOf data users

theorem userFile_none : UserFile none Dict.empty :=
  ⟨[], rfl, { enumerated := List.Pairwise.nil, own := fun h => (nomatch h), missing := fun _ => rfl }⟩

section TableOf

variable {data : List (JsString × Json)} {users : UserTable} (h : TableOf data users)

include h

theorem TableOf.valid : (Json.object data).Valid := by
  apply Json.Valid.object h.enumerated
  intro p hp
  have hvalue := Json.getProperty_of_mem h.enumerated hp
  cases hget : users.get? p.1 with
  | none =>
    rw [h.missing hget] at hvalue
    cases hvalue
  | some u =>
    obtain ⟨properties, hproperties, hstores⟩ := h.own hget
    rw [Option.some.inj (hvalue.symm.trans hproperties)]
    exact hstores.valid

/-- A table that is persisted is retrieved. -/
theorem TableOf.persisted : UserFile (some (persist (.object data))) users := by
  refine ⟨data, ?_, h⟩
  rw [retrieveTable, retrieveUsers, retrieveOr_persist h.valid]
  rfl

/-- Setting a property sets the record. -/
theorem TableOf.set {properties : List (JsString × Json)} {u : UserData}
    (hstores : Stores properties u) (id : JsString) :
    TableOf (Json.setProperty id (.object properties) data) (users.set id u) where
  enumerated := h.enumerated.setProperty _ _
  own := by
    intro key v hget
    by_cases hkey : key = id
    · subst hkey
      rw [Dict.get?_set_self] at hget
      obtain rfl := Option.some.inj hget
      exact ⟨properties, Json.getProperty_setProperty_self _ _ _, hstores⟩
    · rw [Dict.get?_set_ne _ _ hkey] at hget
      rw [Json.getProperty_setProperty_ne _ hkey]
      exact h.own hget
  missing := by
    intro key hget
    by_cases hkey : key = id
    · subst hkey
      rw [Dict.get?_set_self] at hget
      cases hget
    · rw [Dict.get?_set_ne _ _ hkey] at hget
      rw [Json.getProperty_setProperty_ne _ hkey]
      exact h.missing hget

end TableOf

/-! ## Operations -/

section Operations

variable {s : UserStore} {users : UserTable} {id : JsString}

theorem inheritedValue_member (hmem : id ∈ objectPrototype) :
    s.inheritedValue id = .member id := by
  rw [UserStore.inheritedValue, s.inherited.field_member hmem]
  exact if_pos (List.contains_iff_mem.mpr hmem)

theorem inheritedValue_text {text : JsString} (h : s.inherited.field id = some (some text)) :
    s.inheritedValue id = .text text := by
  rw [UserStore.inheritedValue, h]

theorem inheritedValue_undefined (hmem : id ∉ objectPrototype)
    (h : ∀ text, s.inherited.field id ≠ some (some text)) :
    s.inheritedValue id = .undefined := by
  unfold UserStore.inheritedValue
  split
  · rename_i text htext
    exact absurd htext (h text)
  · rfl
  · exact if_neg (mt List.contains_iff_mem.mp hmem)

theorem getUserFile_own (h : UserFile s.file users) {u : UserData}
    (hget : users.get? id = some u) :
    ∃ properties, getUserFile s id = some (.record properties) ∧ Stores properties u := by
  obtain ⟨data, hdata, htable⟩ := h
  obtain ⟨properties, hproperties, hstores⟩ := htable.own hget
  refine ⟨properties, ?_, hstores⟩
  rw [getUserFile, hdata]
  show s.lookup data id = _
  rw [UserStore.lookup, hproperties]

theorem getUserFile_missing (h : UserFile s.file users) (hget : users.get? id = none) :
    getUserFile s id = some (s.inheritedValue id) := by
  obtain ⟨data, hdata, htable⟩ := h
  rw [getUserFile, hdata]
  show s.lookup data id = _
  rw [UserStore.lookup, htable.missing hget]

/-- `set_user` merges into the record of the id. -/
theorem setUserFile_own (h : UserFile s.file users) {u : UserData}
    (hget : users.get? id = some u) (user : UserPatch) :
    ∃ file, setUserFile s id user = some { s with file := file } ∧
      UserFile file (users.set id (u.assign user)) := by
  obtain ⟨data, hdata, htable⟩ := h
  obtain ⟨properties, hproperties, hstores⟩ := htable.own hget
  have hlookup : s.lookup data id = some (.record properties) := by
    rw [UserStore.lookup, hproperties]
  refine ⟨_, ?_, (htable.set (hstores.assign user) id).persisted⟩
  rw [setUserFile, hdata, Option.bind_eq_bind, Option.bind_some, hlookup]
  rfl

section Missing

variable (h : UserFile s.file users) (hget : users.get? id = none)

include h hget

theorem setUserFile_missing (user : UserPatch) :
    ∃ data, TableOf data users ∧
      setUserFile s id user = some (s.write data id user (s.inheritedValue id)) := by
  obtain ⟨data, hdata, htable⟩ := h
  have hlookup : s.lookup data id = some (s.inheritedValue id) := by
    rw [UserStore.lookup, htable.missing hget]
  refine ⟨data, htable, ?_⟩
  rw [setUserFile, hdata, Option.bind_eq_bind, Option.bind_some, hlookup]
  rfl

/-- `set_user` stores a record where the lookup gives `undefined`. -/
theorem setUserFile_undefined (hvalue : s.inheritedValue id = .undefined) (user : UserPatch) :
    ∃ file, setUserFile s id user = some { s with file := file } ∧
      UserFile file (users.set id (({} : UserData).assign user)) := by
  obtain ⟨data, htable, hset⟩ := setUserFile_missing h hget user
  refine ⟨_, ?_, (htable.set (stores_empty.assign user) id).persisted⟩
  rw [hset, hvalue]
  rfl

/-- `set_user` of a member of `Object.prototype` leaves the records alone. -/
theorem setUserFile_member {name : JsString} (hvalue : s.inheritedValue id = .member name)
    (user : UserPatch) :
    ∃ file, UserFile file users ∧ setUserFile s id user = some
      { file := file
        inherited := if name = js "__proto__" then s.inherited.assign user else s.inherited } := by
  obtain ⟨data, htable, hset⟩ := setUserFile_missing h hget user
  refine ⟨_, htable.persisted, ?_⟩
  rw [hset, hvalue]
  rfl

/-- `set_user` of a string either stores a record or loses it. -/
theorem setUserFile_text {text : JsString} (hvalue : s.inheritedValue id = .text text)
    (user : UserPatch) :
    ∃ file, setUserFile s id user = some { s with file := file } ∧
      (UserFile file users ∨ UserFile file (users.set id (({} : UserData).assign user))) := by
  obtain ⟨data, htable, hset⟩ := setUserFile_missing h hget user
  cases text with
  | nil =>
    refine ⟨_, ?_, .inr (htable.set (stores_empty.assign user) id).persisted⟩
    rw [hset, hvalue]
    rfl
  | cons c text =>
    refine ⟨_, ?_, .inl htable.persisted⟩
    rw [hset, hvalue]
    rfl

end Missing

end Operations

/-! ## The table -/

/-- The value of a lookup in the file is the one of the lookup in the table. -/
def Found.Agrees : Found → Property UserData → Prop
  | .undefined, .missing => True
  | .record properties, .own user => Stores properties user
  | .member _, .inherited => True
  | _, _ => False

/-- `Object.prototype` has not been given a string. -/
def UserPatch.Clean (inherited : UserPatch) : Prop :=
  ∀ name text, inherited.field name ≠ some (some text)

section Refinement

variable {s : UserStore} {users : UserTable} (hclean : s.inherited.Clean)
  (h : UserFile s.file users)

include hclean h

/-- **`get_user`** on the file is the lookup in the table. -/
theorem getUserFile_refines (id : JsString) :
    ∃ found, getUserFile s id = some found ∧ found.Agrees (property users id) := by
  cases hget : users.get? id with
  | some u =>
    obtain ⟨properties, hfound, hstores⟩ := getUserFile_own h hget
    refine ⟨_, hfound, ?_⟩
    rw [property_own hget]
    exact hstores
  | none =>
    refine ⟨_, getUserFile_missing h hget, ?_⟩
    by_cases hmem : id ∈ objectPrototype
    · rw [inheritedValue_member hmem, property_inherited hget hmem]
      trivial
    · rw [inheritedValue_undefined hmem (hclean id), property_missing hget hmem]
      trivial

/-- **`set_user`** on the file is the update of the table, and `Object.prototype` stays
without strings unless it is given one. -/
theorem setUserFile_refines (id : JsString) (user : UserPatch)
    (huser : id = js "__proto__" → user.Clean) :
    ∃ s', setUserFile s id user = some s' ∧ s'.inherited.Clean ∧
      UserFile s'.file (setUser users (some id) user) := by
  have hkey : propertyKey (some id) = id := rfl
  cases hget : users.get? id with
  | some u =>
    obtain ⟨file, hset, hfile⟩ := setUserFile_own h hget user
    refine ⟨_, hset, hclean, ?_⟩
    rw [setUser, hkey, property_own hget]
    exact hfile
  | none =>
    by_cases hmem : id ∈ objectPrototype
    · -- only `__proto__` leads to fields that other lookups find
      obtain ⟨file, hfile, hset⟩ := setUserFile_member h hget (inheritedValue_member hmem) user
      refine ⟨_, hset, ?_, ?_⟩
      · intro name text
        show (if id = js "__proto__" then _ else _ : UserPatch).field name ≠ _
        split
        · rename_i hproto
          rw [UserPatch.field_assign, Ne, Option.or_eq_some_iff]
          rintro (hfield | ⟨-, hfield⟩)
          · exact huser hproto name text hfield
          · exact hclean name text hfield
        · exact hclean name text
      · have hsame : setUser users (some id) user = users := setUser_inherited hget hmem
        rw [hsame]
        exact hfile
    · have hvalue := inheritedValue_undefined hmem (hclean id)
      obtain ⟨file, hset, hfile⟩ := setUserFile_undefined h hget hvalue user
      refine ⟨_, hset, hclean, ?_⟩
      rw [setUser, hkey, property_missing hget hmem]
      exact hfile

end Refinement

end NetworkServers.Phase2
