import Mathlib.Algebra.Order.BigOperators.Group.List
import Mathlib.Data.List.TakeWhile
import NetworkServers.Chat.Server

/-!
# Messages between the Client and the Server

Translation of `src/chat-client/src/chat-client.c`, and what the server makes of the bytes
that it sends. The client cuts the newline off before it sends a line and puts nothing in
its place, so that only the boundaries between its `send` calls tell where a message ends.
TCP does not keep them: the server takes every result of `recv` for one message.
-/

namespace NetworkServers.Chat

open NetworkServers.CString

/-! ## The client -/

/-- `MAX_MESSAGE_SIZE`. -/
def maxMessageSize : ℕ := 1024

/-- `MAX_NAME_LENGTH`. -/
def maxNameLength : ℕ := 50

/-- `fgets` with a buffer of this size: the bytes up to the first newline, but no more than
fit in front of the NUL, and the input behind them. It waits as long as there are too few. -/
def fgets (size : ℕ) (stdin : List UInt8) : Option (List UInt8 × List UInt8) :=
  let count := min (stdin.findIdx (· = 10) + 1) (size - 1)
  if count ≤ stdin.length then some (stdin.take count, stdin.drop count) else none

/-- The string in the buffer after `strtok(buffer, "\n")`. -/
def withoutNewline (buffer : List UInt8) : List UInt8 := cutAtNewline (cString buffer)

/-- What `rename_user` sends. -/
def renameUser (username : List UInt8) : List UInt8 := bytes "/rename" ++ bytes " " ++ username

/-- What the loop of `main` sends; `fuel` bounds the number of rounds. -/
def sendMessages : ℕ → List UInt8 → List (List UInt8)
  | 0, _ => []
  | fuel + 1, stdin =>
    match fgets maxMessageSize stdin with
    | none => []
    | some (message, stdin) => withoutNewline message :: sendMessages fuel stdin

/-- The `send` calls of `main`. Every round of the loop takes at least one byte of the
input. -/
def clientSends (stdin : List UInt8) : List (List UInt8) :=
  match fgets maxNameLength stdin with
  | none => []
  | some (username, stdin) =>
    renameUser (withoutNewline username) :: sendMessages (stdin.length + 1) stdin

/-! ## What is entered -/

/-- A user name and messages, each of which is read by one `fgets`. -/
structure EnteredLines where
  username : List UInt8
  messages : List (List UInt8)
  username_line : 10 ∉ username
  messages_line : ∀ message ∈ messages, 10 ∉ message
  username_short : username.length + 2 ≤ maxNameLength
  messages_short : ∀ message ∈ messages, message.length + 2 ≤ maxMessageSize

/-- The bytes of the input. -/
def EnteredLines.text (lines : EnteredLines) : List UInt8 :=
  lines.username ++ [10] ++ lines.messages.flatMap (· ++ [10])

theorem fgets_line {line : List UInt8} {size : ℕ} (hline : 10 ∉ line)
    (hshort : line.length + 2 ≤ size) (rest : List UInt8) :
    fgets size (line ++ [10] ++ rest) = some (line ++ [10], rest) := by
  have hidx : (line ++ [10] ++ rest).findIdx (· = 10) = line.length := by
    have hnone : ∀ c ∈ line, decide (c = 10) = false := fun c hc =>
      decide_eq_false (ne_of_mem_of_not_mem hc hline)
    rw [List.append_assoc, List.findIdx_append, List.findIdx_eq_length.mpr hnone]
    simp [List.findIdx_cons]
  have hcount : min (line.length + 1) (size - 1) = (line ++ [10]).length := by
    rw [List.length_append, List.length_singleton]
    omega
  unfold fgets
  dsimp only
  rw [hidx, hcount, if_pos (by simp), List.take_left, List.drop_left]

theorem sendMessages_lines {messages : List (List UInt8)} (hline : ∀ m ∈ messages, 10 ∉ m)
    (hshort : ∀ m ∈ messages, m.length + 2 ≤ maxMessageSize) {fuel : ℕ}
    (hfuel : messages.length < fuel) :
    sendMessages fuel (messages.flatMap (· ++ [10])) =
      messages.map fun m => withoutNewline (m ++ [10]) := by
  obtain ⟨fuel, rfl⟩ := Nat.exists_eq_succ_of_ne_zero (Nat.ne_zero_of_lt hfuel)
  induction messages generalizing fuel with
  | nil => rfl
  | cons m messages ih =>
    have hlt : messages.length < fuel := Nat.lt_of_succ_lt_succ hfuel
    obtain ⟨fuel, rfl⟩ := Nat.exists_eq_succ_of_ne_zero (Nat.ne_zero_of_lt hlt)
    have hrest := ih (fun x hx => hline x (List.mem_cons_of_mem m hx))
      (fun x hx => hshort x (List.mem_cons_of_mem m hx)) fuel hlt
    have hfirst := fgets_line (hline m List.mem_cons_self) (hshort m List.mem_cons_self)
      (messages.flatMap (· ++ [10]))
    rw [List.flatMap_cons, sendMessages, hfirst, List.map_cons, ← hrest]

/-- One `send` for each line. -/
theorem clientSends_text (lines : EnteredLines) : clientSends lines.text =
    renameUser (withoutNewline (lines.username ++ [10])) ::
      lines.messages.map fun m => withoutNewline (m ++ [10]) := by
  -- every message has at least its newline, so there are enough rounds
  have hfuel : lines.messages.length < (lines.messages.flatMap (· ++ [10])).length + 1 := by
    rw [Nat.lt_succ_iff, List.length_flatMap]
    calc lines.messages.length
        = (lines.messages.map fun _ => 1).sum := by simp
      _ ≤ (lines.messages.map fun m => (m ++ [10]).length).sum := by
          apply List.sum_le_sum
          intro m _
          rw [List.length_append, List.length_singleton]
          exact Nat.le_add_left 1 _
  unfold clientSends EnteredLines.text
  rw [fgets_line lines.username_line lines.username_short]
  dsimp only
  rw [sendMessages_lines lines.messages_line lines.messages_short hfuel]

/-! ## What the server makes of it -/

/-- The branch that the handler takes for a message, with the text that it takes out of it. -/
inductive Command where
  | rename (newName : List UInt8)
  | broadcast (message : List UInt8)
deriving DecidableEq

/-- The command that the handler sees in what `recv` has returned. -/
def command (data : List UInt8) : Command :=
  let buffer := cString data
  if (bytes "/rename ").isPrefixOf buffer then .rename (cutAtNewline (buffer.drop 8))
  else .broadcast buffer

/-- The rest of the loop's body. -/
def Command.perform (config : ChatServerConfig) (name : List UInt8) : Command → Reaction
  | .rename newName =>
    if newName.length > config.maxNameLength then .reply name (bytes "Server: Name too long.")
    else .reply newName (bytes "Server: Name changed.")
  | .broadcast message => .broadcast (name ++ bytes ": " ++ message)

/-- The handler acts on the command only. -/
theorem react_eq_perform (config : ChatServerConfig) (name data : List UInt8) :
    react config name data = (command data).perform config name := by
  unfold react command
  dsimp only
  split <;> rfl

/-- The name of the client after a reaction. -/
def Reaction.nameAfter (name : List UInt8) : Reaction → List UInt8
  | .reply newName _ => newName
  | .broadcast _ => name

/-- What the loop of `handle_chat_client` does with the results of `recv`. -/
def reactions (config : ChatServerConfig) : List UInt8 → List (List UInt8) → List Reaction
  | _, [] => []
  | name, data :: recvs =>
    let reaction := react config name data
    reaction :: reactions config (reaction.nameAfter name) recvs

/-- The same commands have the same effects: the same renames and refusals, and broadcasts
of the same texts. -/
theorem reactions_eq_of_commands {recvs recvs' : List (List UInt8)}
    (h : recvs.map command = recvs'.map command) (config : ChatServerConfig)
    (name : List UInt8) : reactions config name recvs = reactions config name recvs' := by
  induction recvs generalizing recvs' name with
  | nil =>
    obtain rfl := List.map_eq_nil_iff.mp h.symm
    rfl
  | cons data recvs ih =>
    obtain ⟨data', recvs', rfl, hcommand, hrest⟩ := List.map_eq_cons_iff.mp h.symm
    have hreact : react config name data' = react config name data := by
      rw [react_eq_perform, react_eq_perform, hcommand]
    rw [reactions, reactions, hreact, ih hrest.symm]

/-! ## Boundaries -/

/-- What a server with buffers of this size may get out of `recv` when these texts are
sent: the same bytes, cut anywhere. -/
structure Segments (limit : ℕ) (sends recvs : List (List UInt8)) : Prop where
  joined : recvs.flatten = sends.flatten
  sizes : ∀ data ∈ recvs, 0 < data.length ∧ data.length ≤ limit

/-- Every `send` arrives as a `recv` of its own; where nothing is sent, nothing arrives. -/
def ownRecvs (sends : List (List UInt8)) : List (List UInt8) := sends.filter (· ≠ [])

theorem flatten_ownRecvs (sends : List (List UInt8)) : (ownRecvs sends).flatten = sends.flatten := by
  induction sends with
  | nil => rfl
  | cons s sends ih =>
    rw [ownRecvs] at ih ⊢
    cases s with
    | nil => simpa using ih
    | cons c s => simpa using ih

/-- How many bytes a command takes. -/
def Command.size : Command → ℕ
  | .rename newName => 8 + newName.length
  | .broadcast message => message.length

theorem length_cString_le (buffer : List UInt8) : (cString buffer).length ≤ buffer.length :=
  (List.takeWhile_prefix _).length_le

theorem length_cutAtNewline_le (s : List UInt8) : (cutAtNewline s).length ≤ s.length := by
  have hsplit := congrArg List.length (List.takeWhile_append_dropWhile (p := (· = 10)) (l := s))
  have hcut := (List.takeWhile_prefix (· ≠ 10) (l := s.dropWhile (· = 10))).length_le
  rw [List.length_append] at hsplit
  rw [cutAtNewline, List.length_append]
  omega

/-- A message is at least as long as the command in it. -/
theorem size_command_le (data : List UInt8) : (command data).size ≤ data.length := by
  have hstring := length_cString_le data
  unfold command
  dsimp only
  split
  · rename_i hprefix
    have height := (List.isPrefixOf_iff_prefix.mp hprefix).length_le
    have hcut := length_cutAtNewline_le ((cString data).drop 8)
    rw [List.length_drop] at hcut
    show 8 + (cutAtNewline ((cString data).drop 8)).length ≤ data.length
    have hlength : (bytes "/rename ").length = 8 := rfl
    omega
  · exact hstring

theorem cString_eq {s : List UInt8} (hs : 0 ∉ s) : cString s = s := by
  apply List.takeWhile_eq_self_iff.mpr
  intro c hc
  exact decide_eq_true (ne_of_mem_of_not_mem hc hs)

theorem zero_notMem_cString (s : List UInt8) : 0 ∉ cString s := by
  intro h
  simpa using List.mem_takeWhile_imp h

/-- Without a newline in front, `strtok` cuts at the first one. -/
theorem cutAtNewline_of_head {s : List UInt8} (h : s.head? ≠ some 10) :
    cutAtNewline s = s.takeWhile (· ≠ 10) := by
  cases s with
  | nil => rfl
  | cons c s =>
    have hc : c ≠ 10 := fun heq => h (congrArg some heq)
    have hfront : (c :: s).takeWhile (· = 10) = [] := by simp [hc]
    have hback : (c :: s).dropWhile (· = 10) = c :: s := by simp [hc]
    rw [cutAtNewline, hfront, hback, List.nil_append]

theorem cutAtNewline_append {s : List UInt8} (hs : 10 ∉ s) (hne : s ≠ []) (rest : List UInt8) :
    cutAtNewline (s ++ 10 :: rest) = s := by
  have hall : ∀ d ∈ s, decide (d ≠ 10) = true := fun d hd =>
    decide_eq_true (ne_of_mem_of_not_mem hd hs)
  have hhead : (s ++ 10 :: rest).head? ≠ some 10 := by
    obtain ⟨c, s, rfl⟩ := List.exists_cons_of_ne_nil hne
    intro h
    exact hs (List.mem_cons.mpr (.inl (Option.some.inj h).symm))
  -- `strtok` skips no newline in front, and stops at the one behind
  rw [cutAtNewline_of_head hhead, List.takeWhile_append_of_pos hall]
  simp

theorem cutAtNewline_eq {s : List UInt8} (hs : 10 ∉ s) : cutAtNewline s = s := by
  have hhead : s.head? ≠ some 10 := fun h => hs (List.mem_of_mem_head? h)
  rw [cutAtNewline_of_head hhead]
  apply List.takeWhile_eq_self_iff.mpr
  intro d hd
  exact decide_eq_true (ne_of_mem_of_not_mem hd hs)

/-- A line as it is sent: an empty one as its newline, which `strtok` leaves alone, and any
other one without the newline. -/
theorem withoutNewline_line {line : List UInt8} (hline : 10 ∉ line) :
    withoutNewline (line ++ [10]) = if line = [] then [10] else cString line := by
  unfold withoutNewline
  split
  · rename_i hnil
    rw [hnil]
    rfl
  · rename_i hne
    by_cases hzero : 0 ∈ line
    · -- the string ends inside the line
      obtain ⟨front, back, rfl, hfront⟩ := List.eq_append_cons_of_mem hzero
      have hall : ∀ c ∈ front, decide (c ≠ 0) = true := fun c hc =>
        decide_eq_true (ne_of_mem_of_not_mem hc hfront)
      have hcut : ∀ rest, cString (front ++ 0 :: rest) = front := by
        intro rest
        rw [cString, List.takeWhile_append_of_pos hall]
        simp
      have hclean : 10 ∉ front := fun h => hline (List.mem_append_left _ h)
      rw [List.append_assoc, List.cons_append, hcut, hcut, cutAtNewline_eq hclean]
    · have hzero' : (0 : UInt8) ∉ line ++ [10] := by simpa using hzero
      rw [cString_eq hzero', cString_eq hzero, cutAtNewline_append hline hne]

/-- What is sent for a line holds no NUL, and the server's `strtok` does not cut it. -/
theorem withoutNewline_clean {line : List UInt8} (hline : 10 ∉ line) :
    0 ∉ withoutNewline (line ++ [10]) ∧
      ∀ n, cutAtNewline ((withoutNewline (line ++ [10])).drop n) =
        (withoutNewline (line ++ [10])).drop n := by
  rw [withoutNewline_line hline]
  split
  · -- the newline of an empty line has nothing in front of it
    refine ⟨by decide, fun n => ?_⟩
    rcases n with _ | n
    · rfl
    · simp [cutAtNewline]
  · refine ⟨zero_notMem_cString line, fun n => cutAtNewline_eq ?_⟩
    intro h
    exact hline ((List.takeWhile_prefix _).subset (List.mem_of_mem_drop h))

/-- A text without NUL that the server's `strtok` does not cut is as long as its command. -/
theorem size_command_eq {s : List UInt8} (hzero : 0 ∉ s)
    (hcut : cutAtNewline (s.drop 8) = s.drop 8) : (command s).size = s.length := by
  unfold command
  dsimp only
  rw [cString_eq hzero, hcut]
  split
  · rename_i hprefix
    have height := (List.isPrefixOf_iff_prefix.mp hprefix).length_le
    have hlength : (bytes "/rename ").length = 8 := rfl
    show 8 + (s.drop 8).length = s.length
    rw [List.length_drop]
    omega
  · rfl

/-- Every text that the client sends is as long as its command. -/
theorem size_command_sends (lines : EnteredLines) {s : List UInt8}
    (hs : s ∈ clientSends lines.text) : (command s).size = s.length := by
  rw [clientSends_text, List.mem_cons] at hs
  rcases hs with rfl | hs
  · -- behind `/rename ` stands the whole name
    obtain ⟨hzero, hcut⟩ := withoutNewline_clean lines.username_line
    apply size_command_eq
    · intro h
      rw [renameUser, List.mem_append] at h
      rcases h with h | h
      · exact absurd h (by decide)
      · exact hzero h
    · exact hcut 0
  · obtain ⟨m, hm, rfl⟩ := List.mem_map.mp hs
    obtain ⟨hzero, hcut⟩ := withoutNewline_clean (lines.messages_line m hm)
    exact size_command_eq hzero (hcut 8)

/-- Sizes that are bounded one by one and agree in total agree one by one. -/
theorem map_eq_of_sum_eq {α : Type} {f g : α → ℕ} {l : List α} (hle : ∀ x ∈ l, f x ≤ g x)
    (hsum : (l.map f).sum = (l.map g).sum) : l.map f = l.map g := by
  induction l with
  | nil => rfl
  | cons x l ih =>
    have hx := hle x List.mem_cons_self
    have hl := List.sum_le_sum fun y hy => hle y (List.mem_cons_of_mem x hy)
    simp only [List.map_cons, List.sum_cons] at hsum
    have htail := ih (fun y hy => hle y (List.mem_cons_of_mem x hy)) (by omega)
    rw [List.map_cons, List.map_cons, htail]
    congr 1
    omega

/-- Where the same bytes are taken for the same commands, they are cut in the same places:
no message can be shorter than its command, so none can be longer either. -/
theorem eq_of_sameCommands {sends recvs : List (List UInt8)}
    (hsends : ∀ s ∈ sends, (command s).size = s.length)
    (hjoined : recvs.flatten = sends.flatten) (h : recvs.map command = sends.map command) :
    recvs = sends := by
  have hcommands : (recvs.map fun data => (command data).size) =
      sends.map fun s => (command s).size := by
    simpa [List.map_map, Function.comp_def] using congrArg (List.map Command.size) h
  have hlengths : (sends.map fun s => (command s).size) = sends.map List.length :=
    List.map_congr_left hsends
  have htotal : (recvs.map fun data => (command data).size).sum = (recvs.map List.length).sum := by
    rw [hcommands, hlengths, ← List.length_flatten, ← List.length_flatten, hjoined]
  have hsizes := map_eq_of_sum_eq (fun data _ => size_command_le data) htotal
  apply List.eq_iff_flatten_eq.mpr
  exact ⟨hjoined, by rw [← hsizes, hcommands, hlengths]⟩

/-- **When the server sees the client's messages**: for all lines that are entered, and
however the bytes are cut, the handler carries out the same commands as when every `send`
arrives on its own exactly if every `send` does arrive on its own. -/
theorem sameCommands_iff (config : ChatServerConfig) (lines : EnteredLines)
    {recvs : List (List UInt8)}
    (h : Segments config.messageBufferSize (clientSends lines.text) recvs) :
    recvs.map command = (ownRecvs (clientSends lines.text)).map command ↔
      recvs = ownRecvs (clientSends lines.text) := by
  constructor
  · apply eq_of_sameCommands
    · intro s hs
      exact size_command_sends lines (List.mem_of_mem_filter hs)
    · rw [flatten_ownRecvs, h.joined]
  · intro heq
    rw [heq]

/-- A user who enters the name `amy` and the message `hi`. -/
def amy : EnteredLines where
  username := bytes "amy"
  messages := [bytes "hi"]
  username_line := by decide
  messages_line := by decide
  username_short := by decide
  messages_short := by decide

theorem segments_amy : Segments 16 (clientSends amy.text) [bytes "/rename amyhi"] where
  joined := by decide
  sizes := by decide

/-- If the two texts arrive together, the user is called `amyhi`, and nothing is broadcast. -/
theorem not_sameCommands_amy :
    Segments 16 (clientSends amy.text) [bytes "/rename amyhi"] ∧
    [bytes "/rename amyhi"].map command = [.rename (bytes "amyhi")] ∧
    (ownRecvs (clientSends amy.text)).map command =
      [.rename (bytes "amy"), .broadcast (bytes "hi")] :=
  ⟨segments_amy, by decide, by decide⟩

theorem sameCommands_iff_amy :
    ¬[bytes "/rename amyhi"].map command = (ownRecvs (clientSends amy.text)).map command := by
  rw [sameCommands_iff smallConfig amy segments_amy]
  decide

end NetworkServers.Chat
