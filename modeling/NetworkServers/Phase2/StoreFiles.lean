import NetworkServers.Phase2.Stretches
import NetworkServers.Phase2.UserFile

/-!
# The Files behind a Run

A process has its tables as values, and the program reads and writes two files anew for each
operation. In every run, what the handlers do goes through on the files too, and leaves files
that hold the values: a record is merged into `Object.prototype` only by a logout, which
gives it no string.
-/

namespace NetworkServers.Phase2

open NetworkServers.Js NetworkServers.Runs

/-! ## Effects on the files -/

/-- Both data files, with what the process has made of `Object.prototype`. -/
structure StoreFiles where
  users : UserStore
  chats : FileBytes

/-- No data files yet. -/
def StoreFiles.initial : StoreFiles := { users := UserStore.initial, chats := none }

/-- What an effect does to the files, `none` where it throws. -/
def StoreFiles.perform (files : StoreFiles) : Effect → Option StoreFiles
  | .setUser id user =>
    (setUserFile files.users (propertyKey id) user).map fun users => { files with users := users }
  | .addChat chat =>
    (addChatFile files.chats chat).map fun chats => { files with chats := chats }
  | _ => some files

/-- The files hold the tables, and lookups in them are those in the tables. -/
structure StoreFiles.Holds (files : StoreFiles) (s : Store) : Prop where
  clean : files.users.inherited.Clean
  users : UserFile files.users.file s.users
  chats : ChatFile files.chats s.chats

/-- The effect does not give `Object.prototype` a string. -/
def Effect.Clean : Effect → Prop
  | .setUser id user => propertyKey id = js "__proto__" → user.Clean
  | _ => True

theorem holds_initial : StoreFiles.initial.Holds Store.initial where
  clean := by
    intro name text hfield
    rw [StoreFiles.initial, UserStore.initial, UserPatch.field_empty] at hfield
    cases hfield
  users := userFile_none
  chats := .inl ⟨rfl, rfl⟩

section Effects

variable {files : StoreFiles} {s : Store}

theorem StoreFiles.Holds.setUser (h : files.Holds s) {id : Option JsString} {user : UserPatch}
    (hclean : (Effect.setUser id user).Clean) :
    ∃ files', files.perform (.setUser id user) = some files' ∧
      files'.Holds { s with users := Phase2.setUser s.users id user } := by
  obtain ⟨users, hset, hinherited, husers⟩ :=
    setUserFile_refines h.clean h.users (propertyKey id) user hclean
  refine ⟨{ files with users := users }, ?_, hinherited, husers, h.chats⟩
  rw [perform, hset]
  rfl

theorem StoreFiles.Holds.addChat (h : files.Holds s) (chat : ChatData) :
    ∃ files', files.perform (.addChat chat) = some files' ∧
      files'.Holds { s with chats := Phase2.addChat s.chats chat } := by
  obtain ⟨chats, hadd, hchats⟩ := h.chats.add chat
  refine ⟨{ files with chats := chats }, ?_, h.clean, h.users, hchats⟩
  rw [perform, hadd]
  rfl

/-- **A stretch** does on the files what it does on the tables. -/
theorem StoreFiles.Holds.run {α : Type} (prog : Prog α) (env : Env) (h : files.Holds s)
    (hclean : ∀ e ∈ (prog.run env s).effects, e.Clean) :
    ∃ files', (prog.run env s).effects.foldlM StoreFiles.perform files = some files' ∧
      files'.Holds (prog.run env s).store := by
  induction prog generalizing files s with
  | pure a | throw => exact ⟨files, rfl, h⟩
  | getUser id k ih => exact ih _ h hclean
  | getChat k ih => exact ih _ h hclean
  | now k ih => exact ih _ h hclean
  -- these leave the files alone
  | randomUUID k ih => exact ih _ h (List.forall_mem_cons.mp hclean).2
  | call c k ih | startGpt k ih => exact ih h (List.forall_mem_cons.mp hclean).2
  | setUser id user k ih =>
    obtain ⟨hfirst, hrest⟩ := List.forall_mem_cons.mp hclean
    obtain ⟨files₁, hperform, h₁⟩ := h.setUser hfirst
    obtain ⟨files₂, hrun, h₂⟩ := ih h₁ hrest
    refine ⟨files₂, ?_, h₂⟩
    show (files.perform (.setUser id user)).bind _ = _
    rw [hperform]
    exact hrun
  | addChat chat k ih =>
    obtain ⟨files₁, hperform, h₁⟩ := h.addChat chat
    obtain ⟨files₂, hrun, h₂⟩ := ih h₁ (List.forall_mem_cons.mp hclean).2
    refine ⟨files₂, ?_, h₂⟩
    show (files.perform (.addChat chat)).bind _ = _
    rw [hperform]
    exact hrun

end Effects

/-! ## One stretch -/

/-- No member of `Object.prototype` has a record. -/
def MembersFree (users : UserTable) : Prop := ∀ name ∈ objectPrototype, users.get? name = none

/-- What is known about a handler that waits: the name of a registration is no member of
`Object.prototype`, and a login that has found one has found no record. -/
def Await.NamesRecord : Await → Prop
  | .register username _ => username ∉ objectPrototype
  | .login username _ u => propertyKey username ∈ objectPrototype → u = {}
  | _ => True

theorem MembersFree.setUser {users : UserTable} (h : MembersFree users) (id : Option JsString)
    (user : UserPatch) : MembersFree (setUser users id user) := by
  intro name hname
  by_cases hkey : name = propertyKey id
  · subst hkey
    rw [setUser_inherited (h _ hname) hname]
    exact h _ hname
  · rw [get?_setUser_ne hkey]
    exact h name hname

theorem clean_redirectCalls {url : JsString} {headers : List (JsString × JsString)} :
    ∀ e ∈ redirectCalls url headers, e.Clean := by
  simp [redirectCalls, responseCalls, Effect.Clean]

section Stretch

variable {p : Platform} {env : Env} {users : UserTable} {o : Outcome Next} {task : Task}

theorem UserStep.membersFree (h : UserStep p env users task o) (hfree : MembersFree users) :
    MembersFree o.store.users := by
  cases h with
  | reads husers => exact husers ▸ hfree
  | registered husers | loggedIn _ husers | loggedOut _ _ _ _ husers =>
    exact husers ▸ hfree.setUser _ _

/-- No stretch gives `Object.prototype` a string. -/
theorem UserStep.clean (h : UserStep p env users task o) (hfree : MembersFree users)
    (htask : ∀ a, task = .resume a → a.NamesRecord) : ∀ e ∈ o.effects, e.Clean := by
  have hproto : js "__proto__" ∈ objectPrototype := by decide
  cases h with
  | reads _ heffects =>
    intro e he
    cases e with
    | setUser id user => exact absurd trivial (heffects _ he)
    | call | addChat | randomUUID | startGpt => trivial
  | @registered username _ _ _ heffects =>
    rw [heffects, List.forall_mem_cons]
    refine ⟨fun hkey => ?_, clean_redirectCalls⟩
    -- the name of a registration is its own
    have hname : username = js "__proto__" := hkey
    exact absurd (hname ▸ hproto) (htask _ rfl)
  | loggedIn hpassword _ heffects =>
    rw [heffects, List.forall_mem_cons, List.forall_mem_cons]
    refine ⟨trivial, fun hkey => ?_, clean_redirectCalls⟩
    -- a member has no password
    rw [htask _ rfl (hkey ▸ hproto)] at hpassword
    cases hpassword
  | loggedOut _ _ hfound _ _ heffects =>
    rw [heffects, List.forall_mem_cons]
    refine ⟨fun hkey => ?_, clean_redirectCalls⟩
    rcases getUser_cases hfound with hown | ⟨-, -, rfl⟩
    · rw [hfree _ (hkey ▸ hproto)] at hown
      cases hown
    · -- the token is there and `undefined`
      intro name text
      unfold UserPatch.field
      split_ifs <;> nofun

/-- A handler that begins to wait knows about its name. -/
theorem UserStep.namesRecord (h : UserStep p env users task o) (hfree : MembersFree users)
    {a : Await} (hresult : o.result = some (.await a)) : a.NamesRecord := by
  obtain ⟨-, hwaits⟩ := h.waits hresult
  cases a with
  | register username password =>
    obtain ⟨_, _, -, -, hstarts⟩ := hwaits
    exact (getUser_none hstarts.free).2
  | login username password u =>
    intro hmember
    rcases getUser_cases (show getUser users username = some u from hwaits) with hown | ⟨-, -, hu⟩
    · rw [hfree _ hmember] at hown
      cases hown
    · exact hu
  | stream chunks => trivial
  | changed size => trivial

end Stretch

/-! ## Runs -/

/-- The files that the effects of a log leave. -/
def filesAfter (log : List Entry) : Option StoreFiles :=
  (log.flatMap Entry.effects).foldlM StoreFiles.perform StoreFiles.initial

/-- The files after the log hold the tables, and the waiting handlers know about their names. -/
structure FilesInv (s : Process) : Prop where
  free : MembersFree s.store.users
  pending : ∀ w ∈ s.pending, w.await.NamesRecord
  files : ∃ files, filesAfter s.log = some files ∧ files.Holds s.store

theorem filesInv_initial : FilesInv Process.initial where
  free := fun _ _ => rfl
  pending := fun _ hw => absurd hw List.not_mem_nil
  files := ⟨_, rfl, holds_initial⟩

section Step

variable {p : Platform} {s t : Process}

theorem FilesInv.perform (h : FilesInv s) (env : Env) (request : ℕ) (task : Task)
    (pending : List Pending) (requests : ℕ) (hpending : ∀ w ∈ pending, w ∈ s.pending)
    (htask : ∀ a, task = .resume a → a.NamesRecord) :
    FilesInv (s.perform p env request task pending requests) := by
  have hstep := userStep (p := p) task env s.store
  refine ⟨hstep.membersFree h.free, fun w hw => ?_, ?_⟩
  · rcases List.mem_append.mp hw with hw | hw
    · exact h.pending w (hpending w hw)
    · obtain ⟨hresult, -⟩ := mem_waiting.mp hw
      exact hstep.namesRecord h.free hresult
  · obtain ⟨files, hfiles, hholds⟩ := h.files
    obtain ⟨files', hrun, hholds'⟩ := hholds.run (task.prog p) env (hstep.clean h.free htask)
    refine ⟨files', ?_, hholds'⟩
    show ((s.log ++ [_]).flatMap Entry.effects).foldlM _ _ = _
    rw [List.flatMap_append, List.foldlM_append, List.flatMap_singleton]
    show (filesAfter s.log).bind _ = _
    rw [hfiles]
    exact hrun

/-- One step keeps the invariant. -/
theorem FilesInv.step {l : Label} (h : FilesInv s) (hstep : Steps p s l t) : FilesInv t := by
  rcases stepCases hstep with ⟨text, env, rfl⟩ | ⟨-, env, -, waiting, pending, hperm, rfl⟩
  · exact h.perform env _ _ _ _ (fun _ hw => hw) fun _ htask => nomatch htask
  · refine h.perform env _ _ _ _ (fun w hw => hperm.mem_iff.mpr (List.mem_cons_of_mem _ hw)) ?_
    intro a htask
    obtain rfl := Task.resume.inj htask
    exact h.pending waiting (hperm.mem_iff.mpr List.mem_cons_self)

end Step

/-- **The files hold the tables** in every state that a run reaches: carried out on the files,
the effects of its handlers never throw, and leave the records and the messages of the
process. -/
theorem files_hold {p : Platform} {ls : List Label} {s : Process} (hrun : Reaches p ls s) :
    ∃ files, filesAfter s.log = some files ∧ files.Holds s.store := by
  have hinv : FilesInv s := hrun.invariant filesInv_initial fun _ _ _ h hstep => h.step hstep
  exact hinv.files

end NetworkServers.Phase2
