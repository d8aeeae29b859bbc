import NetworkServers.Chat.Client
import NetworkServers.Chat.Registry

/-!
# Names of Clients

What a rename makes of a client's name. The handler cuts the text behind the command off at
a newline with `strtok`, but goes on to use its own pointer to the text: newlines in front of
the token are passed over by `strtok`, and stay in the name. A name that has one puts the
start of every broadcast of this client on a line of its own.
-/

namespace NetworkServers.Chat

open NetworkServers.CString NetworkServers.Runs

/-! ## A rename -/

/-- A message with the command. -/
def IsRename (data : List UInt8) : Prop := bytes "/rename " <+: data

/-- The text behind the command. -/
def renameText (data : List UInt8) : List UInt8 := (cString data).drop 8

/-- The text up to its first newline. -/
def requestedName (data : List UInt8) : List UInt8 := (renameText data).takeWhile (· ≠ 10)

/-- The text begins with a newline. -/
def LedByNewline (data : List UInt8) : Prop := (renameText data).head? = some 10

/-- The name of a client after a message. -/
def nameAfter (config : ChatServerConfig) (name data : List UInt8) : List UInt8 :=
  (react config name data).nameAfter name

/-- The client is called by the text up to the newline, or still by its old name if this text
is too long. -/
def TakesName (config : ChatServerConfig) (name data : List UInt8) : Prop :=
  (config.maxNameLength < (requestedName data).length ∧ nameAfter config name data = name) ∨
  (nameAfter config name data = requestedName data ∧
    (nameAfter config name data).length ≤ config.maxNameLength ∧
    10 ∉ nameAfter config name data)

section Rename

variable {config : ChatServerConfig} {name data s : List UInt8}

theorem newline_notMem_takeWhile (s : List UInt8) : 10 ∉ s.takeWhile (· ≠ 10) := by
  intro h
  simpa using List.mem_takeWhile_imp h

/-- A newline in front stays. -/
theorem newline_mem_cutAtNewline (h : s.head? = some 10) : 10 ∈ cutAtNewline s := by
  obtain ⟨rest, rfl⟩ := List.head?_eq_some_iff.mp h
  exact List.mem_append_left _ (by simp)

/-- The command is seen in the string, too: it holds no NUL. -/
theorem isRename_iff : IsRename data ↔ (bytes "/rename ").isPrefixOf (cString data) := by
  rw [List.isPrefixOf_iff_prefix]
  constructor
  · rintro ⟨rest, rfl⟩
    have hclean : ∀ c ∈ bytes "/rename ", decide (c ≠ 0) = true :=
      List.all_iff_forall_prop.mp (by decide)
    rw [cString, List.takeWhile_append_of_pos hclean]
    exact List.prefix_append _ _
  · exact fun h => h.trans (List.takeWhile_prefix _)

/-- A rename stores what `strtok` has left, unless it is too long. -/
theorem nameAfter_rename (h : IsRename data) :
    nameAfter config name data =
      if config.maxNameLength < (cutAtNewline (renameText data)).length then name
      else cutAtNewline (renameText data) := by
  unfold nameAfter react
  dsimp only
  rw [if_pos (isRename_iff.mp h)]
  unfold renameText
  split <;> rfl

/-- Any other message is a broadcast. -/
theorem react_broadcast (h : ¬IsRename data) :
    react config name data = .broadcast (name ++ bytes ": " ++ cString data) := by
  unfold react
  dsimp only
  rw [if_neg (isRename_iff.not.mp h)]

theorem takesName_iff (h : IsRename data) :
    TakesName config name data ↔ ¬LedByNewline data ∨
      (name = [] ∧ config.maxNameLength < (cutAtNewline (renameText data)).length) := by
  unfold TakesName
  rw [nameAfter_rename h]
  by_cases hled : LedByNewline data
  · -- nothing stands in front of the newline, but the newline is part of the name
    have hnothing : requestedName data = [] := by
      obtain ⟨rest, hrest⟩ := List.head?_eq_some_iff.mp hled
      rw [requestedName, hrest]
      rfl
    have hmem := newline_mem_cutAtNewline hled
    rw [hnothing]
    split
    · rename_i hlong
      -- an empty name is what the client has asked for
      constructor
      · rintro (⟨hzero, -⟩ | ⟨hname, -⟩)
        · exact absurd hzero (Nat.not_lt_zero _)
        · exact .inr ⟨hname, hlong⟩
      · rintro (hnot | ⟨rfl, -⟩)
        · exact absurd hled hnot
        · exact .inr ⟨rfl, Nat.zero_le _, List.not_mem_nil⟩
    · rename_i hshort
      simp [hled, hshort, hmem]
  · have hcut : cutAtNewline (renameText data) = requestedName data := cutAtNewline_of_head hled
    rw [hcut]
    split
    · rename_i hlong
      exact iff_of_true (.inl ⟨hlong, rfl⟩) (.inl hled)
    · rename_i hshort
      have hline : 10 ∉ requestedName data := newline_notMem_takeWhile _
      exact iff_of_true (.inr ⟨rfl, not_lt.mp hshort, hline⟩) (.inl hled)

/-- A name of one line stays one, if no newline is in front of the new name. -/
theorem newline_notMem_nameAfter (hname : 10 ∉ name) (h : IsRename data → ¬LedByNewline data) :
    10 ∉ nameAfter config name data := by
  by_cases hrename : IsRename data
  · rw [nameAfter_rename hrename]
    split
    · exact hname
    · rw [cutAtNewline_of_head (h hrename)]
      exact newline_notMem_takeWhile _
  · rw [nameAfter, react_broadcast hrename]
    exact hname

end Rename

/-- The digits of a default name are no newlines. -/
theorem newline_notMem_initialName (n : ℕ) : 10 ∉ initialName n := by
  have hdigits : (10 : UInt8) ∉ (Nat.toDigits 10 (n % 2 ^ 64)).map fun c => c.toNat.toUInt8 := by
    intro h
    obtain ⟨c, hc, hnewline⟩ := List.mem_map.mp h
    have hdigit := Nat.isDigit_of_mem_toDigits (by decide) (by decide) hc
    obtain ⟨hlow, hhigh⟩ : 48 ≤ c.toNat ∧ c.toNat ≤ 57 := by
      simpa [Char.isDigit, UInt32.le_iff_toNat_le] using hdigit
    have hvalue : c.toNat % 2 ^ 8 = 10 := congrArg UInt8.toNat hnewline
    omega
  unfold initialName paddedDigits
  simp only [List.mem_append, List.mem_replicate, not_or]
  exact ⟨by decide, by simp, hdigits⟩

/-! ## Runs of the server -/

/-- A name of one line, a colon and a message. -/
def FromOneLine (text : List UInt8) : Prop :=
  ∃ sender message, 10 ∉ sender ∧ text = sender ++ bytes ": " ++ message

/-- All names are one line, and so are those in broadcasts, made or about to be made. -/
structure NamesOneLine (s : System) : Prop where
  names : ∀ r c, s.server.heap r = some c → 10 ∉ c.name
  pending : ∀ (i : ℕ) h message text, s.threads[i]? = some h →
    h.phase = .broadcasts message text → FromOneLine text
  log : ∀ b ∈ s.log, FromOneLine b.text

/-- The condition on a step: no name that is taken begins with a newline. -/
def PlainRename : Label → Prop
  | .receive _ data => IsRename data → ¬LedByNewline data
  | _ => True

section Steps

variable {config : ChatServerConfig} {returns : ChatServer → ClientRef → Option ClientRef}
  {s t : System} {l : Label}

theorem ChatClient.name_after (c : ChatClient) (data : List UInt8) :
    (c.after (react config c.name data)).name = nameAfter config c.name data := by
  unfold nameAfter
  cases react config c.name data <;> rfl

/-- What holds of all names holds of them after a step, if it holds of a default name and of
the new name of a client that has sent something. -/
theorem Step.forall_name {P : List UInt8 → Prop} (hstep : Step config returns s l t)
    (hnames : ∀ r c, s.server.heap r = some c → P c.name)
    (hadd : l = .add → P (initialName s.server.clientIncrement))
    (hreceive : ∀ i data name, l = .receive i data → P name → P (nameAfter config name data)) :
    ∀ r c, t.server.heap r = some c → P c.name := by
  cases hstep with
  | accept | acceptFails | handOver | spawn | hangUp | reply | broadcast => exact hnames
  | add =>
    intro r c hrecord
    rcases update_eq_some hrecord with ⟨-, hnew⟩ | ⟨-, hold⟩
    · obtain rfl := Option.some.inj hnew
      exact hadd rfl
    · exact hnames r c hold
  | receive _ _ hold _ _ =>
    intro r c hrecord
    rcases update_eq_some hrecord with ⟨-, hnew⟩ | ⟨-, hother⟩
    · obtain rfl := Option.some.inj hnew
      rw [ChatClient.name_after]
      exact hreceive _ _ _ rfl (hnames _ _ hold)
    · exact hnames r c hother
  | @remove i h c _ _ _ =>
    intro r c' hrecord
    change (s.server.removeChatClient c.socket).heap r = some c' at hrecord
    -- a removal only frees records
    rcases removeChatClient_cases s.server c.socket with ⟨-, heq⟩ | ⟨_, _, -, -, heq⟩
    · rw [heq] at hrecord
      exact hnames r c' hrecord
    · rw [heq] at hrecord
      rcases update_eq_some hrecord with ⟨-, hnew⟩ | ⟨-, hold⟩
      · cases hnew
      · exact hnames r c' hold

/-- A handler that moves to another phase leaves the pending broadcasts as they are. -/
theorem NamesOneLine.set (hinv : NamesOneLine s) {i : ℕ} {h' : Handler}
    (hphase : ∀ message text, h'.phase = .broadcasts message text → FromOneLine text) :
    ∀ (j : ℕ) h message text, (s.threads.set i h')[j]? = some h →
      h.phase = .broadcasts message text → FromOneLine text := by
  intro j h message text hj
  refine forall_thread_set
    (P := fun _ h => h.phase = .broadcasts message text → FromOneLine text) ?_ ?_ j h hj
  · intro k x _ hx
    exact hinv.pending k x message text hx
  · exact hphase message text

/-- A broadcast text is made of the name that the client has then. -/
theorem fromOneLine_after {h : Handler} {name data message text : List UInt8} (hname : 10 ∉ name)
    (hphase : (h.after data (react config name data)).phase = .broadcasts message text) :
    FromOneLine text := by
  by_cases hrename : IsRename data
  · obtain ⟨newName, answer, hreply⟩ : ∃ newName answer,
        react config name data = .reply newName answer := by
      unfold react
      dsimp only
      rw [if_pos (isRename_iff.mp hrename)]
      split
      · exact ⟨_, _, rfl⟩
      · exact ⟨_, _, rfl⟩
    rw [hreply] at hphase
    cases hphase
  · rw [react_broadcast hrename] at hphase
    cases hphase
    exact ⟨name, cString data, hname, rfl⟩

theorem Step.namesOneLine (hstep : Step config returns s l t) (hinv : NamesOneLine s)
    (hplain : PlainRename l) : NamesOneLine t := by
  have hnames : ∀ r c, t.server.heap r = some c → 10 ∉ c.name := by
    refine hstep.forall_name (P := fun name => 10 ∉ name) hinv.names ?_ ?_
    · exact fun _ => newline_notMem_initialName _
    · rintro i data name rfl hname
      exact newline_notMem_nameAfter hname hplain
  cases hstep with
  | accept | acceptFails | add | handOver => exact ⟨hnames, hinv.pending, hinv.log⟩
  | spawn =>
    refine ⟨hnames, ?_, hinv.log⟩
    intro j h message text hj hphase
    refine forall_thread_concat (P := fun _ h => h.phase = .broadcasts message text →
      FromOneLine text) ?_ ?_ j h hj hphase
    · exact fun k x => hinv.pending k x message text
    · -- the new thread is in `recv`
      intro hnew
      cases hnew
  | receive _ _ hrecord _ _ =>
    have hname := hinv.names _ _ hrecord
    exact ⟨hnames, hinv.set fun _ _ => fromOneLine_after hname, hinv.log⟩
  | hangUp | reply | remove => exact ⟨hnames, hinv.set nofun, hinv.log⟩
  | @broadcast i h message text hthread hphase =>
    refine ⟨hnames, hinv.set nofun, ?_⟩
    intro b hb
    rcases List.mem_append.mp hb with hold | hnew
    · exact hinv.log b hold
    · rw [List.mem_singleton.mp hnew]
      exact hinv.pending i h message text hthread hphase

end Steps

/-- **Single-line names**: what a rename makes of a name, for every message and every earlier
name; and where no client sends a new name with a newline in front, every broadcast of every
run of the server begins with a name that is one line. -/
theorem takesName_iff_plain (config : ChatServerConfig) :
    (∀ name data, IsRename data → (TakesName config name data ↔ ¬LedByNewline data ∨
      (name = [] ∧ config.maxNameLength < (cutAtNewline (renameText data)).length))) ∧
    ∀ (returns : ChatServer → ClientRef → Option ClientRef) (ls : List Label) (s : System),
      Run (Step config returns) System.init ls s → (∀ l ∈ ls, PlainRename l) →
      ∀ b ∈ s.log, FromOneLine b.text := by
  refine ⟨fun _ _ => takesName_iff, ?_⟩
  intro returns ls s hrun hplain
  refine NamesOneLine.log (Run.invariant ?_ ?_ (hrun.guarded_of_labels hplain))
  · exact ⟨nofun, nofun, nofun⟩
  · exact fun t l u hinv hstep => hstep.2.namesOneLine hinv hstep.1

/-- A newline behind the name is cut off. -/
theorem takesName_iff_plain_amy :
    TakesName smallConfig (bytes "eve") (bytes "/rename amy\n") := by
  apply ((takesName_iff_plain smallConfig).1 _ _ ⟨bytes "amy\n", by decide⟩).mpr
  left
  unfold LedByNewline
  decide

/-- A client that asks for a name on the second line. -/
def secondLine : List UInt8 := bytes "/rename \nServer"

/-- It gets the newline, too, and its next message begins with a line of the server's. -/
theorem not_takesName_secondLine :
    IsRename secondLine ∧ requestedName secondLine = [] ∧
    nameAfter smallConfig (bytes "eve") secondLine = bytes "\nServer" ∧
    react smallConfig (bytes "\nServer") (bytes "bye") = .broadcast (bytes "\nServer: bye") ∧
    ¬TakesName smallConfig (bytes "eve") secondLine := by
  have hafter : nameAfter smallConfig (bytes "eve") secondLine = bytes "\nServer" := by decide
  refine ⟨⟨bytes "\nServer", by decide⟩, by decide, hafter, by decide, ?_⟩
  intro h
  rcases h with ⟨-, hsame⟩ | ⟨-, -, hline⟩
  · rw [hafter] at hsame
    exact absurd hsame (by decide)
  · rw [hafter] at hline
    exact hline (by decide)

end NetworkServers.Chat
