import NetworkServers.Phase2.UserFile

/-!
# The User Store as a Map

For the caller the user store is a map: an id has the records merged that were passed for
it, in their order, whatever was passed for other ids. This is so for all ids but those
that a plain object has by itself: the members of `Object.prototype`, and the names of
fields that `set_user("__proto__", ...)` has given it before there is a record.
-/

namespace NetworkServers.Phase2

open NetworkServers.Js

/-! ## Calls -/

/-- The calls of `set_user` in one process, one after the other, from an empty store. -/
def setUsers (calls : List (JsString × UserPatch)) : Option UserStore :=
  calls.foldlM (fun s call => setUserFile s call.1 call.2) UserStore.initial

/-- The records that are passed for an id. -/
def recordsFor (id : JsString) (calls : List (JsString × UserPatch)) : List UserPatch :=
  (calls.filter fun call => call.1 = id).map Prod.snd

/-- The field-wise merge of records in their order, if there are any. -/
def merged (records : List UserPatch) : Option UserData :=
  records.foldl (fun user record => some ((user.getD {}).assign record)) none

/-- The value is what a map has for an id. -/
def Found.Is : Found → Option UserData → Prop
  | .undefined, none => True
  | .record properties, some user => Stores properties user
  | _, _ => False

/-- After the calls, `get_user` gives the merge of the records that were passed for the id. -/
def MapAt (id : JsString) (calls : List (JsString × UserPatch)) : Prop :=
  ∃ s found, setUsers calls = some s ∧ getUserFile s id = some found ∧
    found.Is (merged (recordsFor id calls))

/-- `get_user` does so after each of the calls. -/
def IsMapFor (id : JsString) (calls : List (JsString × UserPatch)) : Prop :=
  ∀ made, made <+: calls → MapAt id made

/-- `Object.prototype` is given no string under the id before there is a record for it. -/
def Unclaimed (id : JsString) (calls : List (JsString × UserPatch)) : Prop :=
  ∀ before patch after text, calls = before ++ (js "__proto__", patch) :: after →
    patch.field id = some (some text) → ∃ call ∈ before, call.1 = id

theorem recordsFor_append_self (calls : List (JsString × UserPatch)) (id : JsString)
    (user : UserPatch) : recordsFor id (calls ++ [(id, user)]) = recordsFor id calls ++ [user] := by
  simp [recordsFor, List.filter_append]

theorem recordsFor_append_ne (calls : List (JsString × UserPatch)) {id : JsString}
    {call : JsString × UserPatch} (h : call.1 ≠ id) :
    recordsFor id (calls ++ [call]) = recordsFor id calls := by
  simp [recordsFor, List.filter_append, h]

theorem recordsFor_eq_nil {calls : List (JsString × UserPatch)} {id : JsString} :
    recordsFor id calls = [] ↔ ∀ call ∈ calls, call.1 ≠ id := by
  simp [recordsFor, List.filter_eq_nil_iff]

theorem merged_append (records : List UserPatch) (record : UserPatch) :
    merged (records ++ [record]) = some (((merged records).getD {}).assign record) := by
  rw [merged, List.foldl_append]
  rfl

theorem merged_eq_none {records : List UserPatch} (h : merged records = none) : records = [] := by
  induction records using List.reverseRecOn with
  | nil => rfl
  | append_singleton records record _ =>
    rw [merged_append] at h
    cases h

theorem Unclaimed.front {id : JsString} {calls rest : List (JsString × UserPatch)}
    (h : Unclaimed id (calls ++ rest)) : Unclaimed id calls := by
  intro before patch after text hcalls hfield
  apply h before patch (after ++ rest) text _ hfield
  rw [hcalls, List.append_assoc]
  rfl

/-! ## One call -/

/-- What a call of `set_user` does to the records and to `Object.prototype`. -/
structure SetsUser (s : UserStore) (users : UserTable) (id : JsString) (user : UserPatch)
    (s' : UserStore) (users' : UserTable) : Prop where
  call : setUserFile s id user = some s'
  file : UserFile s'.file users'
  inherited : s'.inherited = if id = js "__proto__" then s.inherited.assign user else s.inherited
  frame : ∀ key, key ≠ id → users'.get? key = users.get? key
  member : id ∈ objectPrototype → users'.get? id = none
  merge : id ∉ objectPrototype →
    (users.get? id = none → ∀ text, s.inherited.field id ≠ some (some text)) →
    users'.get? id = some (((users.get? id).getD {}).assign user)

section OneCall

variable {s : UserStore} {users : UserTable} {id : JsString} {user : UserPatch}

/-- A call that stores a record of an id that is no member of `Object.prototype`. -/
theorem SetsUser.of_stored (hmem : id ∉ objectPrototype) {file : FileBytes} {u : UserData}
    (hset : setUserFile s id user = some { s with file := file })
    (hfile : UserFile file (users.set id u))
    (hu : u = ((users.get? id).getD {}).assign user) :
    SetsUser s users id user { s with file := file } (users.set id u) where
  call := hset
  file := hfile
  inherited := by
    have hid : id ≠ js "__proto__" := fun heq => hmem (heq ▸ by decide)
    rw [if_neg hid]
  frame := fun key hkey => Dict.get?_set_ne _ _ hkey
  member := fun hin => absurd hin hmem
  merge := fun _ _ => by rw [Dict.get?_set_self, hu]

/-- **Every call** does this. -/
theorem setsUser (h : UserFile s.file users)
    (hmembers : ∀ name ∈ objectPrototype, users.get? name = none) (id : JsString)
    (user : UserPatch) : ∃ s' users', SetsUser s users id user s' users' := by
  by_cases hmem : id ∈ objectPrototype
  · -- the record is merged into the member
    have hget := hmembers id hmem
    obtain ⟨file, hfile, hset⟩ := setUserFile_member h hget (inheritedValue_member hmem) user
    exact ⟨_, users, hset, hfile, rfl, fun _ _ => rfl, fun _ => hget, fun hnot => absurd hmem hnot⟩
  cases hget : users.get? id with
  | some u =>
    obtain ⟨file, hset, hfile⟩ := setUserFile_own h hget user
    refine ⟨_, _, .of_stored hmem hset hfile ?_⟩
    rw [hget]
    rfl
  | none =>
    have hnew : ({} : UserData).assign user = ((users.get? id).getD {}).assign user := by
      rw [hget]
      rfl
    by_cases htext : ∃ text, s.inherited.field id = some (some text)
    · obtain ⟨text, htext⟩ := htext
      obtain ⟨file, hset, hfile | hfile⟩ := setUserFile_text h hget (inheritedValue_text htext) user
      · -- the record is lost
        have hid : id ≠ js "__proto__" := fun heq => hmem (heq ▸ by decide)
        exact ⟨_, users, hset, hfile, (if_neg hid).symm, fun _ _ => rfl, fun _ => hget,
          fun _ hnot => absurd htext (hnot hget text)⟩
      · exact ⟨_, _, .of_stored hmem hset hfile hnew⟩
    · obtain ⟨file, hset, hfile⟩ := setUserFile_undefined h hget
        (inheritedValue_undefined hmem (not_exists.mp htext)) user
      exact ⟨_, _, .of_stored hmem hset hfile hnew⟩

end OneCall

/-! ## Sequences of calls -/

/-- What is so after some calls. -/
structure Made (calls : List (JsString × UserPatch)) (s : UserStore) (users : UserTable) :
    Prop where
  run : setUsers calls = some s
  file : UserFile s.file users
  members : ∀ name ∈ objectPrototype, users.get? name = none
  /-- An id for which no record was passed has none. -/
  free : ∀ id, recordsFor id calls = [] → users.get? id = none
  /-- A string that `Object.prototype` has was passed for `__proto__`. -/
  given : ∀ name text, s.inherited.field name = some (some text) →
    ∃ before patch after, calls = before ++ (js "__proto__", patch) :: after ∧
      patch.field name = some (some text)

theorem made_nil : Made [] UserStore.initial Dict.empty where
  run := rfl
  file := userFile_none
  members := fun _ _ => rfl
  free := fun _ _ => rfl
  given := by
    intro name text hfield
    rw [UserStore.initial, UserPatch.field_empty] at hfield
    cases hfield

section Made

variable {calls : List (JsString × UserPatch)} {s s' : UserStore} {users users' : UserTable}

/-- One more call. -/
theorem Made.append (h : Made calls s users) {id : JsString} {user : UserPatch}
    (hset : SetsUser s users id user s' users') : Made (calls ++ [(id, user)]) s' users' where
  run := by
    rw [setUsers, List.foldlM_append]
    show (setUsers calls).bind _ = _
    rw [h.run]
    show (setUserFile s id user).bind _ = _
    rw [hset.call]
    rfl
  file := hset.file
  members := by
    intro name hname
    by_cases heq : name = id
    · subst heq
      exact hset.member hname
    · rw [hset.frame name heq]
      exact h.members name hname
  free := by
    intro key hkey
    have hne : id ≠ key := recordsFor_eq_nil.mp hkey (id, user) (by simp)
    rw [hset.frame key hne.symm]
    rw [recordsFor_append_ne calls hne] at hkey
    exact h.free key hkey
  given := by
    intro name text hfield
    -- a string that was there before
    have hbefore : s.inherited.field name = some (some text) →
        ∃ before patch after, calls ++ [(id, user)] = before ++ (js "__proto__", patch) :: after ∧
          patch.field name = some (some text) := by
      intro hfield
      obtain ⟨before, patch, after, rfl, hpatch⟩ := h.given name text hfield
      exact ⟨before, patch, after ++ [(id, user)], by simp, hpatch⟩
    rw [hset.inherited] at hfield
    split at hfield
    · rename_i hproto
      rw [UserPatch.field_assign, Option.or_eq_some_iff] at hfield
      rcases hfield with hfield | ⟨-, hfield⟩
      · exact ⟨calls, user, [], by rw [hproto], hfield⟩
      · exact hbefore hfield
    · exact hbefore hfield

/-- Every sequence of calls comes to its end. -/
theorem exists_made (calls : List (JsString × UserPatch)) : ∃ s users, Made calls s users := by
  induction calls using List.reverseRecOn with
  | nil => exact ⟨_, _, made_nil⟩
  | append_singleton calls call ih =>
    obtain ⟨s, users, h⟩ := ih
    obtain ⟨s', users', hset⟩ := setsUser h.file h.members call.1 call.2
    exact ⟨s', users', h.append hset⟩

/-- As long as no record was passed, the id has not been given to `Object.prototype`. -/
theorem Made.field_ne (h : Made calls s users) {id : JsString} (hfree : Unclaimed id calls)
    (hno : recordsFor id calls = []) (text : JsString) :
    s.inherited.field id ≠ some (some text) := by
  intro hfield
  obtain ⟨before, patch, after, hcalls, hpatch⟩ := h.given id text hfield
  obtain ⟨call, hcall, hid⟩ := hfree before patch after text hcalls hpatch
  refine recordsFor_eq_nil.mp hno call ?_ hid
  rw [hcalls]
  exact List.mem_append_left _ hcall

end Made

/-- The records of an unclaimed id are merged in their order. -/
theorem exists_made_merged {id : JsString} (hid : id ∉ objectPrototype)
    {calls : List (JsString × UserPatch)} (hfree : Unclaimed id calls) :
    ∃ s users, Made calls s users ∧ users.get? id = merged (recordsFor id calls) := by
  induction calls using List.reverseRecOn with
  | nil => exact ⟨_, _, made_nil, rfl⟩
  | append_singleton calls call ih =>
    obtain ⟨key, user⟩ := call
    obtain ⟨s, users, h, hmerged⟩ := ih hfree.front
    obtain ⟨s', users', hset⟩ := setsUser h.file h.members key user
    refine ⟨s', users', h.append hset, ?_⟩
    by_cases hkey : key = id
    · subst hkey
      have hfield : users.get? key = none → ∀ text, s.inherited.field key ≠ some (some text) := by
        intro hget
        rw [hmerged] at hget
        exact h.field_ne hfree.front (merged_eq_none hget)
      rw [hset.merge hid hfield, recordsFor_append_self, merged_append, hmerged]
    · rw [hset.frame id (Ne.symm hkey), recordsFor_append_ne calls hkey]
      exact hmerged

/-- **The map** holds for the ids that are not claimed. -/
theorem mapAt_of_unclaimed {id : JsString} (hid : id ∉ objectPrototype)
    {calls : List (JsString × UserPatch)} (hfree : Unclaimed id calls) : MapAt id calls := by
  obtain ⟨s, users, h, hmerged⟩ := exists_made_merged hid hfree
  cases hget : users.get? id with
  | some u =>
    obtain ⟨properties, hfound, hstores⟩ := getUserFile_own h.file hget
    refine ⟨s, _, h.run, hfound, ?_⟩
    rw [← hmerged, hget]
    exact hstores
  | none =>
    have hno := merged_eq_none (hmerged.symm.trans hget)
    have hvalue := inheritedValue_undefined hid (h.field_ne hfree hno)
    refine ⟨s, .undefined, h.run, hvalue ▸ getUserFile_missing h.file hget, ?_⟩
    rw [hno]
    trivial

/-- What `get_user` gives where there is no record. -/
theorem MapAt.inheritedValue {id : JsString} {calls : List (JsString × UserPatch)}
    (hmap : MapAt id calls) {s : UserStore} {users : UserTable} (h : Made calls s users)
    (hno : recordsFor id calls = []) : s.inheritedValue id = .undefined := by
  obtain ⟨s', found, hrun, hfound, his⟩ := hmap
  obtain rfl := Option.some.inj (h.run.symm.trans hrun)
  rw [getUserFile_missing h.file (h.free id hno)] at hfound
  rw [hno] at his
  rw [Option.some.inj hfound]
  cases found with
  | undefined => rfl
  | record properties => exact his.elim
  | text text => exact his.elim
  | member name => exact his.elim

/-- **The user store is a map** for exactly the ids that are no members of `Object.prototype`
and that are not made one before a record is passed. -/
theorem isMapFor_iff (id : JsString) (calls : List (JsString × UserPatch)) :
    IsMapFor id calls ↔ id ∉ objectPrototype ∧ Unclaimed id calls := by
  constructor
  · intro hmap
    have hid : id ∉ objectPrototype := by
      intro hmem
      have hvalue := (hmap [] (List.nil_prefix)).inheritedValue made_nil rfl
      rw [inheritedValue_member hmem] at hvalue
      cases hvalue
    refine ⟨hid, fun before patch after text hcalls hfield => ?_⟩
    by_contra hno
    push Not at hno
    -- the calls up to the one that gives `Object.prototype` the string
    obtain ⟨s, users, h⟩ := exists_made before
    obtain ⟨s', users', hset⟩ := setsUser h.file h.members (js "__proto__") patch
    have hne : js "__proto__" ≠ id := fun heq => hid (heq ▸ by decide)
    have hmade : before ++ [(js "__proto__", patch)] <+: calls := ⟨after, by simp [hcalls]⟩
    have hrecords : recordsFor id (before ++ [(js "__proto__", patch)]) = [] := by
      rw [recordsFor_append_ne before hne]
      exact recordsFor_eq_nil.mpr hno
    have hvalue := (hmap _ hmade).inheritedValue (h.append hset) hrecords
    have hgiven : s'.inherited.field id = some (some text) := by
      rw [hset.inherited, if_pos rfl, UserPatch.field_assign, hfield]
      rfl
    rw [inheritedValue_text hgiven] at hvalue
    cases hvalue
  · rintro ⟨hid, hfree⟩ made ⟨rest, rfl⟩
    exact mapAt_of_unclaimed hid hfree.front

/-- Without any call, `toString` has a value. -/
theorem not_mapAt : ¬∀ calls id, MapAt id calls := by
  intro hall
  have hvalue := (hall [] (js "toString")).inheritedValue made_nil rfl
  rw [inheritedValue_member (by decide)] at hvalue
  cases hvalue

end NetworkServers.Phase2
