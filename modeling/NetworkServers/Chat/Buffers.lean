import NetworkServers.Chat.Names

/-!
# Sizes of the Text Buffers of the Chat Server

Translation of `parse_chat_config_from_env`, and for every step of the chat server the
`malloc` calls for texts with what is written into them. The buffer of a rename is made to
measure, and that of a broadcast is large enough as long as no stored name is longer than
`max_name_length`. The buffer of a default name has `max_name_length` bytes, whatever the
name is.
-/

namespace NetworkServers.Chat

open NetworkServers.CString NetworkServers.Runs

/-! ## The configuration -/

/-- `getenv`. -/
abbrev Environment := String → Option (List UInt8)

/-- `struct ChatServerConfig` with all its fields. -/
structure ChatServerSettings extends ChatServerConfig where
  maxClients : ℕ
  serverPort : ℕ

/-- `isspace` of the C locale. -/
def isSpace (c : UInt8) : Bool := c = 32 ∨ (9 ≤ c ∧ c ≤ 13)

/-- The number that the digits at the start of a string stand for. -/
def leadingNumber (s : List UInt8) : ℕ :=
  (s.takeWhile fun c => 48 ≤ c ∧ c ≤ 57).foldl (fun value c => 10 * value + (c.toNat - 48)) 0

/-- `atol`, which is `strtol` to the base 10: a number outside of the range of `long` is the
bound that it exceeds. -/
def atol (s : List UInt8) : ℤ :=
  match s.dropWhile isSpace with
  | 45 :: s => max (-(leadingNumber s : ℤ)) (-2 ^ 63)
  | 43 :: s => min (leadingNumber s : ℤ) (2 ^ 63 - 1)
  | s => min (leadingNumber s : ℤ) (2 ^ 63 - 1)

/-- The conversion to `size_t`. -/
def toSize (n : ℤ) : ℕ := (n % 2 ^ 64).toNat

/-- The conversion of `atoi` to `in_port_t`. -/
def toPort (n : ℤ) : ℕ := (n % 2 ^ 16).toNat

/-- `parse_chat_config_from_env`. -/
def parseChatConfigFromEnv (getenv : Environment) (config : ChatServerSettings) :
    ChatServerSettings where
  maxClients :=
    match getenv "CHAT_SERVER_MAX_CLIENTS" with
    | some maxClients => toSize (atol maxClients)
    | none => config.maxClients
  messageBufferSize :=
    match getenv "CHAT_SERVER_MESSAGE_BUFFER_SIZE" with
    | some messageBufferSize => toSize (atol messageBufferSize)
    | none => config.messageBufferSize
  maxNameLength :=
    match getenv "CHAT_SERVER_MAX_NAME_LENGTH" with
    | some maxNameLength => toSize (atol maxNameLength)
    | none => config.maxNameLength
  serverPort :=
    match getenv "CHAT_SERVER_PORT" with
    | some serverPort => toPort (atol serverPort)
    | none => config.serverPort

/-- `chat_config` of `main`. -/
def chatConfig : ChatServerSettings where
  maxNameLength := 32
  maxClients := 256
  messageBufferSize := 1024
  serverPort := 30001

/-- The sizes are values of `size_t`. -/
structure ChatServerConfig.InRange (config : ChatServerConfig) : Prop where
  maxNameLength : config.maxNameLength < 2 ^ 64
  messageBufferSize : config.messageBufferSize < 2 ^ 64

theorem toSize_lt (n : ℤ) : toSize n < 2 ^ 64 := by
  have hnonneg := Int.emod_nonneg n (show (2 ^ 64 : ℤ) ≠ 0 by decide)
  have hlt := Int.emod_lt_of_pos n (show (0 : ℤ) < 2 ^ 64 by decide)
  unfold toSize
  omega

/-- What comes out of the environment is in range. -/
theorem parseChatConfigFromEnv_inRange {config : ChatServerSettings}
    (h : config.toChatServerConfig.InRange) (getenv : Environment) :
    (parseChatConfigFromEnv getenv config).toChatServerConfig.InRange where
  maxNameLength := by
    show (match getenv "CHAT_SERVER_MAX_NAME_LENGTH" with
      | some maxNameLength => toSize (atol maxNameLength)
      | none => config.maxNameLength) < 2 ^ 64
    split
    · exact toSize_lt _
    · exact h.maxNameLength
  messageBufferSize := by
    show (match getenv "CHAT_SERVER_MESSAGE_BUFFER_SIZE" with
      | some messageBufferSize => toSize (atol messageBufferSize)
      | none => config.messageBufferSize) < 2 ^ 64
    split
    · exact toSize_lt _
    · exact h.messageBufferSize

theorem chatConfig_inRange : chatConfig.toChatServerConfig.InRange where
  maxNameLength := by decide
  messageBufferSize := by decide

/-! ## Writes -/

/-- A text that is written into memory from `malloc`: the size that is asked for, before it
is taken modulo the range of `size_t`, and the bytes that are written, the NUL included. -/
structure Write where
  requested : ℕ
  written : ℕ

/-- The size that `malloc` gets. -/
def Write.allocated (w : Write) : ℕ := w.requested % 2 ^ 64

/-- The size has not wrapped around, and the text fits. -/
structure Write.Fits (w : Write) : Prop where
  exact : w.requested < 2 ^ 64
  fits : w.written ≤ w.allocated

/-- What a handler writes on a command of a client with this name. -/
def Command.writes (config : ChatServerConfig) (name : List UInt8) : Command → List Write
  | .rename newName =>
    if newName.length > config.maxNameLength then []
    -- `malloc(new_name_length + 1)` and `strcpy`
    else [{ requested := newName.length + 1, written := newName.length + 1 }]
  | .broadcast message =>
    -- `sprintf(broadcast, "%s: %s", client->name, buffer)`
    [{ requested := config.messageBufferSize + config.maxNameLength + 3
       written := (name ++ bytes ": " ++ message).length + 1 }]

/-- What is written in a step. -/
def System.writes (config : ChatServerConfig) (s : System) : Label → List Write
  | .add =>
    -- `malloc(server->config.max_name_length)` and `sprintf(name, "Client #%03zu", …)`
    [{ requested := config.maxNameLength
       written := (initialName s.server.clientIncrement).length + 1 }]
  | .receive i data =>
    match s.threads[i]?.bind fun h => s.server.heap h.client with
    | some c => (command data).writes config c.name
    | none => []
  | _ => []

/-- Every text of a step fits. -/
def Fitting (config : ChatServerConfig) (s : System) (l : Label) : Prop :=
  ∀ w ∈ s.writes config l, w.Fits

/-- When the texts of a step fit: a default name has at least eleven bytes, and more as soon
as the counter has more than three digits. -/
def Bounded (config : ChatServerConfig) (s : System) : Label → Prop
  | .add =>
    12 ≤ config.maxNameLength ∧ s.server.clientIncrement % 2 ^ 64 < 10 ^ (config.maxNameLength - 9)
  | .receive _ data =>
    (∃ newName, command data = .rename newName) ∨
      config.messageBufferSize + config.maxNameLength + 3 < 2 ^ 64
  | _ => True

/-- No stored name is longer than `max_name_length`. -/
def NamesBounded (config : ChatServerConfig) (s : System) : Prop :=
  ∀ r c, s.server.heap r = some c → c.name.length ≤ config.maxNameLength

/-! ## Default names -/

theorem length_initialName (n : ℕ) :
    (initialName n).length = 8 + max 3 (Nat.toDigits 10 (n % 2 ^ 64)).length := by
  have hfixed : (bytes "Client #").length = 8 := rfl
  rw [initialName, paddedDigits, List.length_append, hfixed, List.length_append,
    List.length_replicate, List.length_map]
  omega

/-- When a default name fits with its NUL. -/
theorem initialName_fits_iff (n m : ℕ) :
    (initialName n).length + 1 ≤ m ↔ 12 ≤ m ∧ n % 2 ^ 64 < 10 ^ (m - 9) := by
  rw [length_initialName]
  constructor
  · intro h
    refine ⟨by omega, ?_⟩
    apply (Nat.length_toDigits_le_iff (by decide) (by omega)).mp
    omega
  · rintro ⟨hmin, hdigits⟩
    have hlength := (Nat.length_toDigits_le_iff (by decide) (by omega)).mpr hdigits
    omega

/-! ## One step -/

section Step

variable {config : ChatServerConfig} {returns : ChatServer → ClientRef → Option ClientRef}
  {s t : System} {l : Label}

/-- A new name is part of the message. -/
theorem length_rename_lt {data newName : List UInt8} (h : command data = .rename newName) :
    newName.length + 8 ≤ data.length := by
  have hsize := size_command_le data
  rw [h] at hsize
  exact (Nat.add_comm _ _).trans_le hsize

/-- A broadcast message is part of what has been received. -/
theorem length_broadcast_le {data message : List UInt8} (h : command data = .broadcast message) :
    message.length ≤ data.length := by
  have hsize := size_command_le data
  rw [h] at hsize
  exact hsize

/-- The texts of a command fit, if the size of a broadcast does not wrap around. -/
theorem Command.writes_fit (hrange : config.InRange) {name data : List UInt8}
    (hname : name.length ≤ config.maxNameLength)
    (hdata : data.length ≤ config.messageBufferSize)
    (hbound : (∃ newName, command data = .rename newName) ∨
      config.messageBufferSize + config.maxNameLength + 3 < 2 ^ 64) :
    ∀ w ∈ (command data).writes config name, w.Fits := by
  have hrange' := hrange.messageBufferSize
  cases hcommand : command data with
  | rename newName =>
    have hlength := length_rename_lt hcommand
    intro w hw
    simp only [Command.writes] at hw
    split at hw
    · -- a name that is too long is not copied
      cases hw
    · rw [List.mem_singleton.mp hw]
      have hexact : newName.length + 1 < 2 ^ 64 := by omega
      exact ⟨hexact, (Nat.mod_eq_of_lt hexact).ge⟩
  | broadcast message =>
    have hlength := length_broadcast_le hcommand
    have hcolon : (bytes ": ").length = 2 := rfl
    rw [hcommand] at hbound
    have hexact := hbound.resolve_left nofun
    -- name and message fill at most their limits, and the three bytes are `": "` and the NUL
    intro w hw
    rw [List.mem_singleton.mp hw]
    refine ⟨hexact, ?_⟩
    show (name ++ bytes ": " ++ message).length + 1 ≤ _ % 2 ^ 64
    rw [Nat.mod_eq_of_lt hexact, List.length_append, List.length_append, hcolon]
    omega

/-- A step whose bounds are met writes only texts that fit. -/
theorem Step.fitting (hrange : config.InRange) (hstep : Step config returns s l t)
    (hnames : NamesBounded config s) (hbound : Bounded config s l) : Fitting config s l := by
  cases hstep with
  | add =>
    have hfits := (initialName_fits_iff s.server.clientIncrement config.maxNameLength).mpr hbound
    intro w hw
    rw [List.mem_singleton.mp hw]
    exact ⟨hrange.maxNameLength, hfits.trans (Nat.mod_eq_of_lt hrange.maxNameLength).ge⟩
  | receive hthread _ hrecord _ hdata =>
    unfold Fitting System.writes
    dsimp only
    rw [hthread, Option.bind_some, hrecord]
    exact Command.writes_fit hrange (hnames _ _ hrecord) hdata.2 hbound
  | accept | acceptFails | handOver | spawn | hangUp | reply | broadcast | remove =>
    exact fun w hw => absurd hw List.not_mem_nil

/-- A step that writes only texts that fit has met its bounds. -/
theorem Step.bounded (hstep : Step config returns s l t) (hfit : Fitting config s l) :
    Bounded config s l := by
  cases hstep with
  | add =>
    have hname := (hfit _ List.mem_cons_self).fits
    apply (initialName_fits_iff s.server.clientIncrement config.maxNameLength).mp
    exact hname.trans (Nat.mod_le _ _)
  | @receive i data h c hthread _ hrecord _ _ =>
    unfold Fitting System.writes at hfit
    dsimp only at hfit
    rw [hthread, Option.bind_some, hrecord] at hfit
    cases hcommand : command data with
    | rename newName => exact .inl ⟨newName, hcommand⟩
    | broadcast message =>
      rw [hcommand] at hfit
      exact .inr (hfit _ List.mem_cons_self).exact
  | accept | acceptFails | handOver | spawn | hangUp | reply | broadcast | remove => exact trivial

/-- The name of a client stays bounded: the check of a rename allows the full length. -/
theorem length_nameAfter_le {name data : List UInt8} (hname : name.length ≤ config.maxNameLength) :
    (nameAfter config name data).length ≤ config.maxNameLength := by
  rw [nameAfter, react_eq_perform]
  cases command data with
  | rename newName =>
    simp only [Command.perform]
    split
    · exact hname
    · rename_i hle
      exact Nat.le_of_not_gt hle
  | broadcast message => exact hname

/-- A step whose bounds are met keeps the names bounded. -/
theorem Step.namesBounded (hstep : Step config returns s l t) (hnames : NamesBounded config s)
    (hbound : Bounded config s l) : NamesBounded config t := by
  refine hstep.forall_name (P := fun name => name.length ≤ config.maxNameLength) hnames ?_ ?_
  · rintro rfl
    have hfits := (initialName_fits_iff s.server.clientIncrement config.maxNameLength).mpr hbound
    exact (Nat.le_succ _).trans hfits
  · intro _ _ _ _ hname
    exact length_nameAfter_le hname

end Step

/-! ## Runs -/

/-- In a run whose steps meet their bounds, all names are bounded. -/
theorem run_namesBounded {config : ChatServerConfig}
    {returns : ChatServer → ClientRef → Option ClientRef} {ls : List Label} {s : System}
    (h : Run (Guarded (Bounded config) (Step config returns)) System.init ls s) :
    NamesBounded config s := by
  refine Run.invariant ?_ ?_ h
  · exact fun r c hrecord => nomatch hrecord
  · intro t l u hnames hstep
    exact hstep.2.namesBounded hnames hstep.1

/-- A run whose steps meet their bounds writes only texts that fit. -/
theorem run_fitting {config : ChatServerConfig}
    {returns : ChatServer → ClientRef → Option ClientRef} (hrange : config.InRange)
    {ls : List Label} {s : System}
    (h : Run (Guarded (Bounded config) (Step config returns)) System.init ls s) :
    Run (Guarded (Fitting config) (Step config returns)) System.init ls s := by
  induction h with
  | nil => exact Run.nil
  | snoc hrun hstep ih =>
    exact ih.snoc ⟨hstep.2.fitting hrange (run_namesBounded hrun) hstep.1, hstep.2⟩

/-- **When the texts fit**: for every environment, a run writes only texts that fit, with
sizes that do not wrap around, exactly if all its steps meet their bounds. -/
theorem fitting_iff_bounded (getenv : Environment) (ls : List Label) (s : System) :
    let config := (parseChatConfigFromEnv getenv chatConfig).toChatServerConfig
    Run (Guarded (Fitting config) (Step config ChatServer.lastClient)) System.init ls s ↔
      Run (Guarded (Bounded config) (Step config ChatServer.lastClient)) System.init ls s := by
  intro config
  constructor
  · intro h
    exact h.mono fun _ _ _ hstep => ⟨hstep.2.bounded hstep.1, hstep.2⟩
  · exact run_fitting (parseChatConfigFromEnv_inRange chatConfig_inRange getenv)

/-- With the sizes of `main`, no text ever overflows: a counter of `size_t` has at most
twenty digits. -/
theorem fitting_chatConfig {ls : List Label} {s : System}
    (h : Run (Step chatConfig.toChatServerConfig ChatServer.lastClient) System.init ls s) :
    Run (Guarded (Fitting chatConfig.toChatServerConfig)
      (Step chatConfig.toChatServerConfig ChatServer.lastClient)) System.init ls s := by
  apply run_fitting chatConfig_inRange
  apply h.mono
  intro t l u hstep
  refine ⟨?_, hstep⟩
  cases l with
  | add =>
    refine ⟨by decide, (Nat.mod_lt _ (by decide)).trans ?_⟩
    decide
  | receive => exact .inr (by decide)
  | accept | acceptFails | handOver | spawn | hangUp | reply | broadcast | remove => exact trivial

/-- `CHAT_SERVER_MAX_NAME_LENGTH=5`. -/
def shortNames : Environment := fun name =>
  if name = "CHAT_SERVER_MAX_NAME_LENGTH" then some (bytes "5") else none

/-- The sizes of a server with this environment. -/
def shortConfig : ChatServerConfig :=
  (parseChatConfigFromEnv shortNames chatConfig).toChatServerConfig

/-- For the first client, twelve bytes are written into five. -/
theorem not_fitting_firstClient :
    ∃ s t, Run (Step shortConfig ChatServer.lastClient) System.init [.accept 4] s ∧
      Step shortConfig ChatServer.lastClient s .add t ∧ ¬Fitting shortConfig s .add := by
  refine ⟨System.init.accepted 4, _, Run.single (.accept rfl (by decide) rfl), .add rfl, ?_⟩
  intro h
  have hfits := (h _ List.mem_cons_self).fits
  exact absurd hfits (by decide)

end NetworkServers.Chat
