import NetworkServers.SocketChat.Lines

/-!
# Names as a Gate

A client of the socket chat has to take a name before anything it sends is broadcast. The
gate asks whether the name is truthy, so that it works only as long as no rename stores an
empty name. What one event does to the names comes first, then what has happened in a run
when a client has a name.
-/

namespace NetworkServers.SocketChat

open NetworkServers.Js NetworkServers.Runs

/-! ## Renames -/

/-- The name that a rename asks for. -/
def newName (data : List UInt8) : JsString := trim ((messageOf data).drop 8)

/-- A message that is a rename, with a name that is not too long. -/
def AcceptedRename (maxNameLength : Option ℤ) (data : List UInt8) : Prop :=
  js "/rename " <+: messageOf data ∧ isTooLong maxNameLength (newName data) = false

section Receive

variable {maxNameLength : Option ℤ} {clientName : Option JsString} {data : List UInt8}

theorem nameAfter_of_accepted (h : AcceptedRename maxNameLength data) :
    (receive maxNameLength clientName data).nameAfter clientName = some (newName data) := by
  obtain ⟨hcommand, hshort⟩ := h
  unfold newName at hshort
  unfold receive
  dsimp only
  rw [if_pos (List.isPrefixOf_iff_prefix.mpr hcommand), hshort]
  rfl

/-- A client keeps its name over a rename that is refused, and over any other message. -/
theorem nameAfter_of_not_accepted (h : ¬AcceptedRename maxNameLength data) :
    (receive maxNameLength clientName data).nameAfter clientName = clientName := by
  unfold receive
  dsimp only
  split
  · rename_i hprefix
    rw [List.isPrefixOf_iff_prefix] at hprefix
    have hlong : isTooLong maxNameLength (newName data) = true := by
      simpa [AcceptedRename, hprefix] using h
    unfold newName at hlong
    rw [hlong]
    rfl
  · split <;> rfl

/-- Only a client with a name broadcasts. -/
theorem receive_broadcast {text : JsString}
    (h : receive maxNameLength clientName data = .broadcast text) :
    ∃ name, clientName = some name ∧ name ≠ [] := by
  unfold receive at h
  dsimp only at h
  split at h
  · -- a rename gets an answer
    split at h <;> cases h
  · split at h
    · cases h
    · cases h
    · exact ⟨_, rfl, List.cons_ne_nil _ _⟩

/-- A name of the right length, with nothing to trim. -/
def ProperName (limit : ℤ) (name : JsString) : Prop :=
  name ≠ [] ∧ Trimmed name ∧ name.length ≤ limit

theorem AcceptedRename.properName {limit : ℤ} (h : AcceptedRename (some limit) data) :
    ProperName limit (newName data) := by
  refine ⟨newName_ne_nil h.1, trimmed_trim _, ?_⟩
  simpa [isTooLong] using h.2

end Receive

/-! ## One event -/

section Event

variable {maxNameLength : Option ℤ} {s t : System} {e : Event}

/-- Only a message of the client itself changes its name. -/
theorem name_react (s : System) (i j : ℕ) (reaction : Reaction) :
    (s.react i reaction).name j = if j = i then reaction.nameAfter (s.name i) else s.name j := by
  cases reaction with
  | reply name text =>
    show Function.update s.name i name j = _
    rw [Function.update_apply]
    rfl
  | broadcast text =>
    show s.name j = if j = i then s.name i else s.name j
    split
    · rename_i hself
      rw [hself]
    · rfl

/-- What an event does to a name: an accepted rename of the client sets it, and nothing else
changes it. -/
theorem Step.name_cases (hstep : Step maxNameLength s e t) (j : ℕ) :
    (∃ data, e = .data j data ∧ AcceptedRename maxNameLength data ∧
      t.name j = some (newName data)) ∨
    ((∀ data, e = .data j data → ¬AcceptedRename maxNameLength data) ∧ t.name j = s.name j) := by
  obtain ⟨-, hcases⟩ := hstep.cases
  rcases hcases with ⟨rfl, rfl⟩ | ⟨i, data, rfl, -, rfl⟩ | ⟨i, rfl, -, rfl⟩ | ⟨i, rfl, -, rfl⟩ |
    ⟨i, rfl, -, rfl⟩
  · exact .inr ⟨nofun, rfl⟩
  · rw [name_react]
    by_cases hself : j = i
    · subst hself
      rw [if_pos rfl]
      by_cases haccepted : AcceptedRename maxNameLength data
      · exact .inl ⟨data, rfl, haccepted, nameAfter_of_accepted haccepted⟩
      · refine .inr ⟨?_, nameAfter_of_not_accepted haccepted⟩
        intro data' heq
        cases heq
        exact haccepted
    · rw [if_neg hself]
      refine .inr ⟨?_, rfl⟩
      intro data' heq
      cases heq
      exact absurd rfl hself
  · exact .inr ⟨nofun, rfl⟩
  · exact .inr ⟨nofun, rfl⟩
  · exact .inr ⟨nofun, rfl⟩

/-- No event takes a name away. -/
theorem Step.name_isSome (hstep : Step maxNameLength s e t) {i : ℕ} (h : (s.name i).isSome) :
    (t.name i).isSome := by
  rcases hstep.name_cases i with ⟨data, -, -, hname⟩ | ⟨-, hname⟩
  · rw [hname]
    rfl
  · rwa [hname]

/-- What a message with this reaction writes: an answer, or, for a client with a name, a
broadcast. -/
theorem react_receive_cases (maxNameLength : Option ℤ) (s : System) (i : ℕ) (data : List UInt8) :
    (∃ w, w.isReply = true ∧
      (s.react i (receive maxNameLength (s.name i) data)).written = s.written ++ [w] ∧
      (s.react i (receive maxNameLength (s.name i) data)).broadcasts = s.broadcasts) ∨
    ∃ name text, s.name i = some name ∧ name ≠ [] ∧
      receive maxNameLength (s.name i) data = .broadcast text := by
  cases hreceive : receive maxNameLength (s.name i) data with
  | reply name text => exact .inl ⟨_, rfl, rfl, rfl⟩
  | broadcast text =>
    obtain ⟨name, hname, hne⟩ := receive_broadcast hreceive
    exact .inr ⟨name, text, hname, hne, rfl⟩

/-- A broadcast is emitted for a message of a client with a name. -/
theorem Step.broadcast_named (hstep : Step maxNameLength s e t)
    (h : t.broadcasts ≠ s.broadcasts) :
    ∃ i data name, e = .data i data ∧ s.name i = some name ∧ name ≠ [] := by
  obtain ⟨-, hcases⟩ := hstep.cases
  rcases hcases with ⟨-, rfl⟩ | ⟨i, data, rfl, -, rfl⟩ | ⟨i, -, -, rfl⟩ | ⟨i, -, -, rfl⟩ |
    ⟨i, -, -, rfl⟩
  · exact absurd rfl h
  · rcases react_receive_cases maxNameLength s i data with
      ⟨w, -, -, hsame⟩ | ⟨name, text, hname, hne, -⟩
    · exact absurd hsame h
    · exact ⟨i, data, name, rfl, hname, hne⟩
  · exact absurd rfl h
  · exact absurd rfl h
  · exact absurd rfl h

/-- What is not an answer has been written for a client with a name. -/
def BroadcastsNamed (s : System) : Prop :=
  ∀ w ∈ s.written, w.isReply = false → ∃ name, w.name = some name ∧ name ≠ []

theorem Step.broadcastsNamed (hstep : Step maxNameLength s e t) (h : BroadcastsNamed s) :
    BroadcastsNamed t := by
  obtain ⟨-, hcases⟩ := hstep.cases
  rcases hcases with ⟨-, rfl⟩ | ⟨i, data, -, -, rfl⟩ | ⟨i, -, -, rfl⟩ | ⟨i, -, -, rfl⟩ |
    ⟨i, -, -, rfl⟩
  · exact h
  · rcases react_receive_cases maxNameLength s i data with
      ⟨w, hreply, hwritten, -⟩ | ⟨name, text, hname, hne, hreceive⟩
    · intro w' hw' hno
      rw [hwritten, List.mem_append] at hw'
      rcases hw' with hold | hnew
      · exact h w' hold hno
      · rw [List.mem_singleton.mp hnew, hreply] at hno
        cases hno
    · rw [hreceive]
      intro w hw hno
      rcases List.mem_append.mp hw with hold | hnew
      · exact h w hold hno
      · obtain ⟨c, -, rfl⟩ := List.mem_map.mp hnew
        exact ⟨name, hname, hne⟩
  · exact h
  · exact h
  · exact h

end Event

/-! ## Runs -/

/-- The gate in a state that these events lead to. -/
structure NameGate (limit : ℤ) (events : List Event) (s : System) : Prop where
  /-- A name that is set is a proper one. -/
  proper : ∀ i ∈ s.clients, ∀ name, s.name i = some name → ProperName limit name
  /-- A client has a name exactly if it has sent a rename that was accepted. -/
  named_iff : ∀ i, (s.name i).isSome ↔
    ∃ data, Event.data i data ∈ events ∧ AcceptedRename (some limit) data
  /-- It never loses it. -/
  kept : ∀ more t, Run (Step (some limit)) s more t → ∀ i, (s.name i).isSome → (t.name i).isSome
  /-- A refused rename, and any event of another client, leaves it as it is. -/
  unchanged : ∀ e t, Step (some limit) s e t → ∀ i,
    (∀ data, e = .data i data → ¬AcceptedRename (some limit) data) → t.name i = s.name i
  /-- A broadcast is emitted for a message of a client with a name. -/
  gate : ∀ e t, Step (some limit) s e t → t.broadcasts ≠ s.broadcasts →
    ∃ i data name, e = .data i data ∧ s.name i = some name ∧ name ≠ []
  /-- What has been written is an answer, or has been written for such a client. -/
  written : BroadcastsNamed s

section Runs

variable {limit : ℤ} {events : List Event} {s : System}

theorem run_properName (hrun : Run (Step (some limit)) System.init events s) :
    ∀ i name, s.name i = some name → ProperName limit name := by
  let inv : System → Prop := fun s => ∀ i name, s.name i = some name → ProperName limit name
  refine (show inv s from Run.invariant ?_ ?_ hrun)
  · exact fun _ _ h => nomatch h
  · intro t e u hproper hstep i name hname
    rcases hstep.name_cases i with ⟨data, -, haccepted, hnew⟩ | ⟨-, hsame⟩
    · obtain rfl := Option.some.inj (hnew.symm.trans hname)
      exact haccepted.properName
    · exact hproper i name (hsame.symm.trans hname)

/-- A name goes back to a rename. By induction on the run: its last event has set the name,
or the name was there before. -/
theorem run_named_iff (hrun : Run (Step (some limit)) System.init events s) (i : ℕ) :
    (s.name i).isSome ↔
      ∃ data, Event.data i data ∈ events ∧ AcceptedRename (some limit) data := by
  induction hrun with
  | nil =>
    constructor
    · intro h
      cases h
    · rintro ⟨data, hmem, -⟩
      cases hmem
  | @snoc events t u e _ hstep ih =>
    rcases hstep.name_cases i with ⟨data, rfl, haccepted, hname⟩ | ⟨hnot, hname⟩
    · rw [hname]
      exact iff_of_true rfl ⟨data, by simp, haccepted⟩
    · rw [hname, ih]
      constructor
      · rintro ⟨data, hmem, haccepted⟩
        exact ⟨data, List.mem_append_left _ hmem, haccepted⟩
      · rintro ⟨data, hmem, haccepted⟩
        rcases List.mem_append.mp hmem with hold | hnew
        · exact ⟨data, hold, haccepted⟩
        · exact absurd haccepted (hnot data (List.mem_singleton.mp hnew).symm)

/-- **The name gate**, in every state that connections, messages of any text and
disconnections of any number of clients lead to. -/
theorem nameGate (hrun : Run (Step (some limit)) System.init events s) :
    NameGate limit events s where
  proper := fun i _ => run_properName hrun i
  named_iff := run_named_iff hrun
  kept := by
    intro more t hmore i hnamed
    let inv : System → Prop := fun s => (s.name i).isSome
    exact (show inv t from Run.invariant hnamed (fun _ _ _ h hstep => hstep.name_isSome h) hmore)
  unchanged := by
    intro e t hstep i hnot
    rcases hstep.name_cases i with ⟨data, heq, haccepted, -⟩ | ⟨-, hsame⟩
    · exact absurd haccepted (hnot data heq)
    · exact hsame
  gate := fun _ _ hstep => hstep.broadcast_named
  written := by
    refine Run.invariant ?_ (fun _ _ _ h hstep => hstep.broadcastsNamed h) hrun
    exact fun w hw => absurd hw List.not_mem_nil

end Runs

/-- A client whose second rename is refused. -/
theorem nameGate_refused :
    ∃ s, Run (Step (some 3)) System.init
        [.connection, .data 0 (ascii "/rename eve"), .data 0 (ascii "/rename mallory")] s ∧
      s.name 0 = some (js "eve") ∧ NameGate 3
        [.connection, .data 0 (ascii "/rename eve"), .data 0 (ascii "/rename mallory")] s := by
  obtain ⟨s, hs, hname⟩ : ∃ s, System.after (some 3)
      [.connection, .data 0 (ascii "/rename eve"), .data 0 (ascii "/rename mallory")] = some s ∧
      s.name 0 = some (js "eve") := ⟨_, rfl, by decide⟩
  exact ⟨s, run_of_after hs, hname, nameGate (run_of_after hs)⟩

end NetworkServers.SocketChat
