import NetworkServers.Library.FormEncoding
import NetworkServers.SocketChat.Lines

/-!
# Conversations

Translation of `src/phase2/src/client/index.ts`, and what its users see when their clients are
connected to the socket chat server. A client sends each line with one `write`, and the server
takes each data event for one message. As long as every write arrives by itself, and the client
gets what the server writes in any pieces that are cut between two writes, nobody can tell the
whole from a room in which everything is said in one order: what is printed at a client is what a
member of the room has heard, but for what is still on its way.
-/

namespace NetworkServers.SocketChat

open NetworkServers.Js NetworkServers.Runs

/-! ## The client -/

/-- `MAX_MESSAGE_SIZE`. -/
def maxMessageSize : ℕ := 1024

/-- `MAX_NAME_LENGTH`. -/
def maxUsernameLength : ℕ := 50

/-- What a client does with the next line that its user enters. -/
inductive Stage where
  /-- It is the answer to `rl.question`. -/
  | asking
  /-- It is a message. -/
  | chatting
  /-- The client has ended the connection. -/
  | ended
deriving DecidableEq

/-- A client and its connection. Of both directions there are the writes that have not arrived.
`entered` are the lines of the user so far. -/
structure Client where
  stage : Stage
  outbox : List (List UInt8)
  inbox : List (List UInt8)
  printed : JsString
  entered : List String

def Client.init : Client where
  stage := .asking
  outbox := []
  inbox := []
  printed := []
  entered := []

namespace Client

variable (c : Client)

/-- `socket.write(text)`. An empty text is no data. -/
def write (text : JsString) : Client :=
  if text = [] then c else { c with outbox := c.outbox ++ [utf8Encode text] }

/-- `rename`. -/
def rename (username : JsString) : Client := c.write (js "/rename " ++ username)

/-- The answer to the question. -/
def answer (input : String) : Client :=
  let username := trim (utf16 input)
  if maxUsernameLength < username.length then { c with stage := .ended }
  else { c.rename username with stage := .chatting }

/-- A `line` event. -/
def line (input : String) : Client :=
  let message := trim (utf16 input)
  if maxMessageSize < message.length then c else c.write message

/-- The user enters a line. -/
def enter (input : String) : Client :=
  match c.stage with
  | .asking => { c.answer input with entered := c.entered ++ [input] }
  | .chatting => { c.line input with entered := c.entered ++ [input] }
  | .ended => c

/-- A `data` event: `console.log(data.toString().trim())`. -/
def data (bytes : List UInt8) : Client :=
  { c with printed := c.printed ++ trim (utf8Decode bytes) ++ js "\n" }

end Client

/-- What is left of some writes after `n` bytes of them. -/
def advance : ℕ → List (List UInt8) → List (List UInt8)
  | _, [] => []
  | n, w :: ws => if n < w.length then w.drop n :: ws else advance (n - w.length) ws

/-! ## Clients and the server -/

structure Conversation where
  server : System
  client : ℕ → Client

def Conversation.init : Conversation where
  server := System.init
  client := fun _ => Client.init

inductive Move where
  /-- The next client connects. -/
  | connect
  /-- The user of a client enters a line. -/
  | enter (i : ℕ) (input : String)
  /-- A client ends. -/
  | leave (i : ℕ)
  /-- The next `n` bytes of a client arrive at the server. -/
  | arrive (i n : ℕ)
  /-- The server sees the end of a connection. -/
  | ended (i : ℕ)
  /-- The next `n` bytes of the server arrive at a client. -/
  | print (i n : ℕ)

namespace Conversation

variable (maxNameLength : Option ℤ) (s : Conversation)

/-- Change one client. -/
def update (i : ℕ) (c : Client) : Conversation :=
  { s with client := Function.update s.client i c }

/-- What the server has written to a client since another state of it. -/
def newWrites (before after : System) (i : ℕ) : List (List UInt8) :=
  ((after.written.drop before.written.length).filter fun w => w.target = i).map
    fun w => utf8Encode w.text

/-- The server goes on, and what it writes is on its way. -/
def serve (server : System) : Conversation where
  server := server
  client := fun i =>
    { s.client i with inbox := (s.client i).inbox ++ newWrites s.server server i }

/-- One move. A client listens to `data` from the time when it has its name, and what has come
before waits for it. -/
def move : Move → Option Conversation
  | .connect => (s.server.next maxNameLength .connection).map s.serve
  | .enter i input =>
    if s.server.life i = some .open then some (s.update i ((s.client i).enter input)) else none
  | .leave i =>
    if s.server.life i = some .open then some (s.update i { s.client i with stage := .ended })
    else none
  | .arrive i n =>
    let bytes := (s.client i).outbox.flatten.take n
    if bytes ≠ [] then
      (s.server.next maxNameLength (.data i bytes)).map
        (s.update i { s.client i with outbox := advance n (s.client i).outbox }).serve
    else none
  | .ended i =>
    if (s.client i).stage = .ended ∧ (s.client i).outbox = [] then
      (s.server.next maxNameLength (.ended i)).map s.serve
    else none
  | .print i n =>
    let bytes := (s.client i).inbox.flatten.take n
    if bytes ≠ [] ∧ (s.client i).stage = .chatting then
      some (s.update i ({ s.client i with inbox := advance n (s.client i).inbox }.data bytes))
    else none

end Conversation

/-- The moves as a relation. -/
def Moves (maxNameLength : Option ℤ) (s : Conversation) (m : Move) (t : Conversation) : Prop :=
  s.move maxNameLength m = some t

/-- A message arrives as it was written, and what the server has written is cut between two
writes. -/
def WholeWrites (s : Conversation) : Move → Prop
  | .arrive i n => (s.client i).outbox.head?.map List.length = some n
  | .print i n => ∃ k ≤ (s.client i).inbox.length, n = ((s.client i).inbox.take k).flatten.length
  | _ => True

instance (s : Conversation) (m : Move) : Decidable (WholeWrites s m) :=
  match m with
  | .arrive i n => inferInstanceAs (Decidable ((s.client i).outbox.head?.map List.length = some n))
  | .print i n => inferInstanceAs (Decidable (∃ k ≤ (s.client i).inbox.length,
      n = ((s.client i).inbox.take k).flatten.length))
  | .connect | .enter _ _ | .leave _ | .ended _ => isTrue trivial

/-! ## The room -/

/-- What happens in a room. -/
inductive Act where
  | joins (i : ℕ)
  | speaks (i : ℕ) (text : JsString)
  | leaves (i : ℕ)
deriving DecidableEq

/-- The members of a room, their names, and what each of them has heard. -/
structure Room where
  members : List ℕ
  name : ℕ → Option JsString
  heard : ℕ → JsString

def Room.init : Room where
  members := []
  name := fun _ => none
  heard := fun _ => []

namespace Room

variable (r : Room)

/-- Some of the members hear a text. -/
def tell (listeners : List ℕ) (text : JsString) : Room :=
  { r with heard := fun i => if i ∈ listeners then r.heard i ++ text else r.heard i }

/-- One act. What is said is a name for the one who says it, or it is heard by all, or there is
no name yet. -/
def act (maxNameLength : Option ℤ) : Act → Room
  | .joins i => { r with members := r.members ++ [i] }
  | .leaves i => { r with members := r.members.filter fun j => j ≠ i }
  | .speaks i text =>
    let message := trim text
    if (js "/rename ").isPrefixOf message then
      let name := trim (message.drop 8)
      if isTooLong maxNameLength name then r.tell [i] nameTooLong
      else { r with name := Function.update r.name i (some name) }.tell [i] nameChanged
    else
      match r.name i with
      | none | some [] => r.tell [i] nameMissing
      | some (c :: name) => r.tell r.members ((c :: name) ++ js ": " ++ message ++ js "\n")

/-- The room after some acts. -/
def after (maxNameLength : Option ℤ) (acts : List Act) : Room :=
  acts.foldl (fun r a => r.act maxNameLength a) Room.init

end Room

/-- What a member has said. -/
def saidBy (i : ℕ) (acts : List Act) : List JsString :=
  acts.filterMap fun
    | .speaks j text => if j = i then some text else none
    | _ => none

/-- What a client sends of the lines that its user enters. -/
def sendable : List String → List JsString
  | [] => []
  | username :: messages =>
    if maxUsernameLength < (trim (utf16 username)).length then []
    else (js "/rename " ++ trim (utf16 username)) ::
      (messages.map fun message => trim (utf16 message)).filter
        fun message => message ≠ [] ∧ message.length ≤ maxMessageSize

/-! ## Writes -/

section Writes

theorem utf8Encode_ne_nil_of_trim {text : JsString} (h : trim text ≠ []) : utf8Encode text ≠ [] := by
  apply utf8Encode_ne_nil
  rintro rfl
  exact h rfl

/-- After some whole writes the others are left. -/
theorem advance_length_flatten {ws vs : List (List UInt8)} (h : ∀ v ∈ vs, v ≠ []) :
    advance ws.flatten.length (ws ++ vs) = vs := by
  induction ws with
  | nil =>
    cases vs with
    | nil => rfl
    | cons v vs =>
      have hv := List.length_pos_iff.mpr (h v List.mem_cons_self)
      show (if 0 < v.length then v.drop 0 :: vs else _) = _
      rw [if_pos hv, List.drop_zero]
  | cons w ws ih =>
    rw [List.flatten_cons, List.length_append, List.cons_append, advance,
      if_neg (by omega), Nat.add_sub_cancel_left]
    exact ih

/-- A line of the server, as it is written. -/
def IsLine (bytes : List UInt8) : Prop :=
  ∃ text, bytes = utf8Encode (text ++ js "\n") ∧ IsWellFormed text ∧ Trimmed text ∧ text ≠ []

variable {bytes bytes' : List UInt8}

theorem isWellFormed_newline : IsWellFormed (js "\n") :=
  isWellFormed_ascii (List.all_iff_forall_prop.mp (by decide))

theorem IsLine.ne_nil (h : IsLine bytes) : bytes ≠ [] := by
  obtain ⟨text, rfl, -, -, -⟩ := h
  exact utf8Encode_ne_nil (List.append_ne_nil_of_right_ne_nil _ (List.cons_ne_nil _ _))

/-- Two lines are printed as they are. -/
theorem IsLine.append (h : IsLine bytes) (h' : IsLine bytes') : IsLine (bytes ++ bytes') ∧
    utf8Decode (bytes ++ bytes') = utf8Decode bytes ++ utf8Decode bytes' := by
  obtain ⟨text, rfl, hwell, htrimmed, hne⟩ := h
  obtain ⟨text', rfl, hwell', htrimmed', hne'⟩ := h'
  have hline := hwell.append isWellFormed_newline
  have hline' := hwell'.append isWellFormed_newline
  rw [← utf8Encode_append hline hline', utf8Decode_utf8Encode (hline.append hline'),
    utf8Decode_utf8Encode hline, utf8Decode_utf8Encode hline']
  refine ⟨⟨text ++ js "\n" ++ text', by simp only [List.append_assoc], hline.append hwell', ?_,
    List.append_ne_nil_of_right_ne_nil _ hne'⟩, rfl⟩
  constructor
  · obtain ⟨c, rest, rfl⟩ := List.exists_cons_of_ne_nil hne
    exact htrimmed.head
  · rw [List.getLast?_append_of_ne_nil _ hne']
    exact htrimmed'.last

theorem isLine_flatten {ws : List (List UInt8)} (h : ∀ w ∈ ws, IsLine w) (hne : ws ≠ []) :
    IsLine ws.flatten ∧ utf8Decode ws.flatten = ws.flatMap utf8Decode := by
  induction ws with
  | nil => exact absurd rfl hne
  | cons w ws ih =>
    obtain ⟨hw, hws⟩ := List.forall_mem_cons.mp h
    rcases eq_or_ne ws [] with rfl | hne
    · simpa using hw
    · obtain ⟨hline, hdecode⟩ := ih hws hne
      obtain ⟨hboth, happend⟩ := hw.append hline
      exact ⟨hboth, by rw [List.flatten_cons, happend, hdecode, List.flatMap_cons]⟩

/-- **What is printed** of some lines is what was written. -/
theorem IsLine.printed (h : IsLine bytes) : trim (utf8Decode bytes) ++ js "\n" = utf8Decode bytes := by
  obtain ⟨text, rfl, hwell, htrimmed, hne⟩ := h
  rw [utf8Decode_utf8Encode (hwell.append isWellFormed_newline)]
  congr 1
  have hstart : (text ++ js "\n").dropWhile isWhitespace = text ++ js "\n" := by
    apply dropWhile_eq_self
    obtain ⟨c, rest, rfl⟩ := List.exists_cons_of_ne_nil hne
    exact htrimmed.head
  have hblank : isWhitespace 10 = true := by decide
  rw [trim, hstart]
  exact (List.rdropWhile_concat_pos _ _ _ hblank).trans (rdropWhile_eq_self htrimmed.last)

/-- Some whole writes arrive. -/
theorem cut_writes {ws vs : List (List UInt8)} {n : ℕ} (hn : n = ws.flatten.length)
    (h : ∀ v ∈ vs, v ≠ []) :
    (ws ++ vs).flatten.take n = ws.flatten ∧ advance n (ws ++ vs) = vs := by
  rw [hn, List.flatten_append]
  exact ⟨List.take_left, advance_length_flatten h⟩

end Writes

/-! ## A client and the room -/

/-- A text that a client sends, as it is written. -/
def IsSent (bytes : List UInt8) : Prop :=
  ∃ text, bytes = utf8Encode text ∧ IsWellFormed text ∧ trim text ≠ []

/-- Before the question is answered the user has not entered anything, and then a name. -/
def Client.StageOk (c : Client) : Prop :=
  match c.stage with
  | .asking => c.entered = []
  | .chatting => ∃ username messages, c.entered = username :: messages ∧
      (trim (utf16 username)).length ≤ maxUsernameLength
  | .ended => True

/-- What a client has printed and what is on its way to it is what a member has heard, and what
the member has said and what is on its way from the client is what its user has entered. -/
structure Client.Linked (c : Client) (heard : JsString) (said : List JsString) : Prop where
  heard : c.printed ++ c.inbox.flatMap utf8Decode = heard
  lines : ∀ w ∈ c.inbox, IsLine w
  said : said ++ c.outbox.map utf8Decode = sendable c.entered
  sends : ∀ w ∈ c.outbox, IsSent w
  stage : c.StageOk

section Linked

variable {c : Client} {heard : JsString} {said : List JsString}

theorem isWellFormed_utf16 (m : String) : IsWellFormed (utf16 m) := by
  refine ⟨m.toList.map Char.toNat, ?_, (List.flatMap_map ..).symm⟩
  intro n hn
  obtain ⟨d, -, rfl⟩ := List.mem_map.mp hn
  exact isScalar_toNat d

/-- Another message. -/
theorem sendable_concat {username : String} (messages : List String) (message : String)
    (hshort : (trim (utf16 username)).length ≤ maxUsernameLength) :
    sendable (username :: messages ++ [message]) = sendable (username :: messages) ++
      if trim (utf16 message) ≠ [] ∧ (trim (utf16 message)).length ≤ maxMessageSize then
        [trim (utf16 message)] else [] := by
  rw [List.cons_append, sendable, sendable, if_neg (Nat.not_lt.mpr hshort),
    if_neg (Nat.not_lt.mpr hshort), List.map_append, List.filter_append, List.cons_append]
  simp [List.filter_cons]

/-- A text is written. -/
theorem Client.Linked.write (h : c.Linked heard said) {text : JsString} (hwell : IsWellFormed text)
    (htrim : text ≠ [] → trim text ≠ []) :
    (∀ w ∈ (c.write text).outbox, IsSent w) ∧ said ++ (c.write text).outbox.map utf8Decode =
      sendable c.entered ++ if text = [] then [] else [text] := by
  unfold Client.write
  split
  · exact ⟨h.sends, by rw [h.said, List.append_nil]⟩
  · rename_i hne
    refine ⟨?_, ?_⟩
    · rw [List.forall_mem_append, List.forall_mem_singleton]
      exact ⟨h.sends, text, rfl, hwell, htrim hne⟩
    · rw [List.map_append, ← List.append_assoc, h.said, List.map_singleton,
        utf8Decode_utf8Encode hwell]

theorem Client.write_keeps (c : Client) (text : JsString) : (c.write text).printed = c.printed ∧
    (c.write text).inbox = c.inbox ∧ (c.write text).entered = c.entered ∧
      (c.write text).stage = c.stage := by
  unfold Client.write
  split <;> exact ⟨rfl, rfl, rfl, rfl⟩

theorem trim_rename_ne_nil (username : JsString) : trim (js "/rename " ++ username) ≠ [] := by
  have hslash : isWhitespace 47 = false := by decide
  exact trim_ne_nil (List.mem_append_left _ List.mem_cons_self) hslash

/-- The user answers the question. -/
theorem Client.Linked.answer (h : c.Linked heard said) (hentered : c.entered = []) (input : String) :
    Client.Linked { c.answer input with entered := c.entered ++ [input] } heard said := by
  have hwell := (isWellFormed_utf16 input).trim
  have hsaid := h.said
  rw [hentered] at hsaid
  unfold Client.answer
  dsimp only
  split
  · rename_i hlong
    refine ⟨h.heard, h.lines, ?_, h.sends, trivial⟩
    show said ++ c.outbox.map utf8Decode = sendable (c.entered ++ [input])
    rw [hentered, List.nil_append, sendable, if_pos hlong]
    exact hsaid
  · rename_i hshort
    have hrename : IsWellFormed (js "/rename ") :=
      isWellFormed_ascii (List.all_iff_forall_prop.mp (by decide))
    obtain ⟨hsends, hsent⟩ := h.write (hrename.append hwell) fun _ => trim_rename_ne_nil _
    obtain ⟨hprinted, hinbox, -, -⟩ := c.write_keeps (js "/rename " ++ trim (utf16 input))
    refine ⟨?_, ?_, ?_, hsends, ?_⟩
    · show Client.printed (c.write _) ++ (Client.inbox (c.write _)).flatMap utf8Decode = heard
      rw [hprinted, hinbox]
      exact h.heard
    · show ∀ w ∈ Client.inbox (c.write _), IsLine w
      rw [hinbox]
      exact h.lines
    · show said ++ (Client.outbox (c.write _)).map utf8Decode = sendable (c.entered ++ [input])
      rw [hsent, hentered, List.nil_append, sendable, sendable, if_neg hshort]
      rfl
    · exact ⟨input, [], by rw [hentered]; rfl, Nat.not_lt.mp hshort⟩

/-- The user enters a message. -/
theorem Client.Linked.line (h : c.Linked heard said) {username : String} {messages : List String}
    (hentered : c.entered = username :: messages)
    (hshort : (trim (utf16 username)).length ≤ maxUsernameLength) (hstage : c.stage = .chatting)
    (input : String) :
    Client.Linked { c.line input with entered := c.entered ++ [input] } heard said := by
  have hwell := (isWellFormed_utf16 input).trim
  have hchats : ∃ username' messages', c.entered ++ [input] = username' :: messages' ∧
      (trim (utf16 username')).length ≤ maxUsernameLength :=
    ⟨username, messages ++ [input], by rw [hentered]; rfl, hshort⟩
  unfold Client.line
  dsimp only
  split
  · rename_i hlong
    refine ⟨h.heard, h.lines, ?_, h.sends, ?_⟩
    · show said ++ c.outbox.map utf8Decode = sendable (c.entered ++ [input])
      rw [h.said, hentered, sendable_concat _ _ hshort,
        if_neg (fun hsends => Nat.not_lt.mpr hsends.2 hlong), List.append_nil]
    · unfold Client.StageOk
      rw [show Client.stage { c with entered := c.entered ++ [input] } = .chatting from hstage]
      exact hchats
  · rename_i hlimit
    have htrim : trim (utf16 input) ≠ [] → trim (trim (utf16 input)) ≠ [] := by
      rw [trim_eq_self (trimmed_trim _)]
      exact id
    obtain ⟨hsends, hsent⟩ := h.write hwell htrim
    obtain ⟨hprinted, hinbox, -, hsame⟩ := c.write_keeps (trim (utf16 input))
    refine ⟨?_, ?_, ?_, hsends, ?_⟩
    · show Client.printed (c.write _) ++ (Client.inbox (c.write _)).flatMap utf8Decode = heard
      rw [hprinted, hinbox]
      exact h.heard
    · show ∀ w ∈ Client.inbox (c.write _), IsLine w
      rw [hinbox]
      exact h.lines
    · show said ++ (Client.outbox (c.write _)).map utf8Decode = sendable (c.entered ++ [input])
      rw [hsent, hentered, sendable_concat _ _ hshort]
      congr 1
      by_cases hnil : trim (utf16 input) = []
      · rw [if_pos hnil, if_neg (fun hsends => hsends.1 hnil)]
      · rw [if_neg hnil, if_pos ⟨hnil, Nat.not_lt.mp hlimit⟩]
    · unfold Client.StageOk
      rw [show Client.stage { c.write (trim (utf16 input)) with entered := c.entered ++ [input] } =
        .chatting from hsame.trans hstage]
      exact hchats

/-- The user enters a line. -/
theorem Client.Linked.enter (h : c.Linked heard said) (input : String) :
    (c.enter input).Linked heard said := by
  have hstage := h.stage
  unfold Client.StageOk at hstage
  unfold Client.enter
  split
  · rename_i hasking
    rw [hasking] at hstage
    exact h.answer hstage input
  · rename_i hchatting
    rw [hchatting] at hstage
    obtain ⟨username, messages, hentered, hshort⟩ := hstage
    exact h.line hentered hshort hchatting input
  · exact h

/-- The client ends. -/
theorem Client.Linked.leave (h : c.Linked heard said) :
    Client.Linked { c with stage := .ended } heard said :=
  ⟨h.heard, h.lines, h.said, h.sends, trivial⟩

/-- The server writes some lines, and the member hears them. -/
theorem Client.Linked.hear (h : c.Linked heard said) {new : List (List UInt8)}
    (hnew : ∀ w ∈ new, IsLine w) :
    Client.Linked { c with inbox := c.inbox ++ new } (heard ++ new.flatMap utf8Decode) said where
  heard := by rw [List.flatMap_append, ← List.append_assoc, h.heard]
  lines := List.forall_mem_append.mpr ⟨h.lines, hnew⟩
  said := h.said
  sends := h.sends
  stage := h.stage

/-- The first write of the client has arrived, and the member says it. -/
theorem Client.Linked.say (h : c.Linked heard said) {w : List UInt8} {outbox : List (List UInt8)}
    (houtbox : c.outbox = w :: outbox) :
    Client.Linked { c with outbox := outbox } heard (said ++ [utf8Decode w]) where
  heard := h.heard
  lines := h.lines
  said := by
    rw [← h.said, houtbox, List.map_cons, List.append_assoc]
    rfl
  sends := fun v hv => h.sends v (houtbox ▸ List.mem_cons_of_mem _ hv)
  stage := h.stage

/-- Some whole lines arrive at the client. -/
theorem Client.Linked.print (h : c.Linked heard said) {ws vs : List (List UInt8)}
    (hinbox : c.inbox = ws ++ vs) (hne : ws ≠ []) :
    ({ c with inbox := vs }.data ws.flatten).Linked heard said := by
  have hlines := h.lines
  rw [hinbox, List.forall_mem_append] at hlines
  obtain ⟨hline, hdecode⟩ := isLine_flatten hlines.1 hne
  refine ⟨?_, hlines.2, h.said, h.sends, h.stage⟩
  show c.printed ++ trim (utf8Decode ws.flatten) ++ js "\n" ++ vs.flatMap utf8Decode = heard
  rw [List.append_assoc c.printed, hline.printed, hdecode, List.append_assoc,
    ← List.flatMap_append, ← hinbox]
  exact h.heard

end Linked

/-! ## The server and the room -/

/-- The names that clients have are texts. -/
def NamesWellFormed (s : System) : Prop := ∀ i name, s.name i = some name → IsWellFormed name

/-- What the server does is what happens in the room: the same members with the same names, and
everybody is written what they hear. -/
structure Room.Follows (r r' : Room) (before after : System) : Prop where
  members : r'.members = after.clients
  name : r'.name = after.name
  heard : ∀ j, r'.heard j = r.heard j ++
    (Conversation.newWrites before after j).flatMap utf8Decode
  lines : ∀ j, ∀ w ∈ Conversation.newWrites before after j, IsLine w
  names : NamesWellFormed after

section Follows

variable {maxNameLength : Option ℤ} {r : Room} {server : System} {i : ℕ} {text line : JsString}

theorem Room.tell_heard (listeners : List ℕ) (j : ℕ) :
    (r.tell listeners text).heard j = r.heard j ++ if j ∈ listeners then text else [] := by
  show (if j ∈ listeners then r.heard j ++ text else r.heard j) = _
  split
  · rfl
  · exact (List.append_nil _).symm

/-- What the server writes with an answer. -/
theorem newWrites_reply (name : Option JsString) (j : ℕ) :
    Conversation.newWrites server (server.react i (.reply name text)) j =
      if j ∈ [i] then [utf8Encode text] else [] := by
  show (((server.written ++ [_]).drop server.written.length).filter _).map _ = _
  rw [List.drop_left, List.filter_singleton]
  by_cases hself : j = i
  · simp [hself]
  · simp [hself, Ne.symm hself]

/-- What the server writes with a broadcast. -/
theorem newWrites_broadcast (hnodup : server.clients.Nodup) (j : ℕ) :
    Conversation.newWrites server (server.react i (.broadcast text)) j =
      if j ∈ server.clients then [utf8Encode text] else [] := by
  show (((server.written ++ server.clients.map _).drop server.written.length).filter _).map _ = _
  rw [List.drop_left, List.filter_map, List.map_map]
  show ((server.clients.filter (· = j)).map fun _ => utf8Encode text) = _
  rw [List.filter_eq, hnodup.count]
  split <;> rfl

/-- A line of the server reads as it is heard. -/
theorem flatMap_heard {P : Prop} [Decidable P] (hwell : IsWellFormed line) :
    ((if P then [utf8Encode line] else []).flatMap utf8Decode : JsString) =
      if P then line else [] := by
  split
  · rw [List.flatMap_singleton, utf8Decode_utf8Encode hwell]
  · rfl

theorem isLine_of_mem {P : Prop} [Decidable P] (hline : IsLine (utf8Encode text)) :
    ∀ w ∈ if P then [utf8Encode text] else [], IsLine w := by
  split
  · exact List.forall_mem_singleton.mpr hline
  · exact fun w hw => absurd hw List.not_mem_nil

/-- The server answers. -/
theorem Room.follows_reply (hmembers : r.members = server.clients) {name : ℕ → Option JsString}
    (hname : name = Function.update server.name i (name i))
    (hwell : ∀ j text, name j = some text → IsWellFormed text) (htext : IsWellFormed line)
    (htrimmed : Trimmed line) (hne : line ≠ []) :
    r.Follows ({ r with name := name }.tell [i] (line ++ js "\n")) server
      (server.react i (.reply (name i) (line ++ js "\n"))) where
  members := hmembers
  name := hname
  heard := by
    intro j
    rw [newWrites_reply, flatMap_heard (htext.append isWellFormed_newline)]
    exact Room.tell_heard _ _
  lines := by
    intro j
    rw [newWrites_reply]
    exact isLine_of_mem ⟨line, rfl, htext, htrimmed, hne⟩
  names := by
    intro j text h
    apply hwell j text
    rw [hname]
    exact h

/-- The server broadcasts. -/
theorem Room.follows_broadcast (hmembers : r.members = server.clients)
    (hname : r.name = server.name) (hnodup : server.clients.Nodup)
    (hwell : NamesWellFormed server) (htext : IsWellFormed line) (htrimmed : Trimmed line)
    (hne : line ≠ []) :
    r.Follows (r.tell r.members (line ++ js "\n")) server
      (server.react i (.broadcast (line ++ js "\n"))) where
  members := hmembers
  name := hname
  heard := by
    intro j
    rw [newWrites_broadcast hnodup, flatMap_heard (htext.append isWellFormed_newline), ← hmembers]
    exact Room.tell_heard _ _
  lines := by
    intro j
    rw [newWrites_broadcast hnodup]
    exact isLine_of_mem ⟨line, rfl, htext, htrimmed, hne⟩
  names := hwell

/-- The server does something without a word. -/
theorem Room.follows_silent {r' : Room} {server' : System} (hwritten : server'.written = server.written)
    (hheard : r'.heard = r.heard) (hmembers : r'.members = server'.clients)
    (hname : r'.name = server'.name) (hwell : NamesWellFormed server') :
    r.Follows r' server server' := by
  have hnothing : ∀ j, Conversation.newWrites server server' j = [] := by
    intro j
    rw [Conversation.newWrites, hwritten, List.drop_length]
    rfl
  refine ⟨hmembers, hname, fun j => ?_, fun j w hw => ?_, hwell⟩
  · rw [hnothing, hheard]
    exact (List.append_nil _).symm
  · rw [hnothing] at hw
    exact absurd hw List.not_mem_nil

theorem isWellFormed_of_append {a b : JsString} (ha : ∀ c ∈ a, c < 0x80)
    (h : IsWellFormed (a ++ b)) : IsWellFormed b := by
  induction a with
  | nil => exact h
  | cons c a ih =>
    obtain ⟨hc, ha⟩ := List.forall_mem_cons.mp ha
    exact ih ha (h.tail (isScalar_of_lt hc))

/-- A name that is asked for is a text. -/
theorem isWellFormed_newName {message : JsString} (h : IsWellFormed message)
    (hcommand : js "/rename " <+: message) : IsWellFormed (trim (message.drop 8)) := by
  obtain ⟨rest, rfl⟩ := hcommand
  exact (isWellFormed_of_append (List.all_iff_forall_prop.mp (by decide)) h).trim

theorem trimmed_of_ends {a : JsString} {c d : UInt16} (hhead : a.head? = some c)
    (hlast : a.getLast? = some d) (hc : isWhitespace c = false) (hd : isWhitespace d = false) :
    Trimmed a := by
  refine ⟨fun e he => ?_, fun e he => ?_⟩
  · obtain rfl := Option.some.inj (hhead.symm.trans he)
    exact hc
  · obtain rfl := Option.some.inj (hlast.symm.trans he)
    exact hd

/-- The answers of the server are lines. -/
theorem isWellFormed_answer {answer : JsString}
    (h : answer ∈ [js "Server: Name too long.", js "Server: Name changed.",
      js "Server: Please set your name first with /rename <your-name>."]) :
    IsWellFormed answer ∧ Trimmed answer ∧ answer ≠ [] := by
  simp only [List.mem_cons, List.not_mem_nil, or_false] at h
  rcases h with rfl | rfl | rfl
  all_goals
    exact ⟨isWellFormed_ascii (List.all_iff_forall_prop.mp (by decide)),
      trimmed_of_ends rfl rfl (by decide) (by decide), by decide⟩

/-- **What is said** in the room is what the server does with the message. -/
theorem Room.follows_speaks (hmembers : r.members = server.clients) (hname : r.name = server.name)
    (hnodup : server.clients.Nodup) (htrimmed : NamesTrimmed server)
    (hwell : NamesWellFormed server) (htext : IsWellFormed text) (hne : trim text ≠ []) :
    r.Follows (r.act maxNameLength (.speaks i text)) server
      (server.react i (receive maxNameLength (server.name i) (utf8Encode text))) := by
  have hmessage : messageOf (utf8Encode text) = trim text := by
    rw [messageOf, utf8Decode_utf8Encode htext]
  have hsame : r.name = Function.update server.name i (r.name i) := by
    rw [hname, Function.update_eq_self]
  have hkeep : ∀ j text, r.name j = some text → IsWellFormed text := hname ▸ hwell
  rw [← hname]
  unfold Room.act receive
  dsimp only
  rw [hmessage]
  split
  · rename_i hcommand
    split
    · obtain ⟨hanswer, htrim, hne⟩ := isWellFormed_answer List.mem_cons_self
      exact Room.follows_reply hmembers hsame hkeep hanswer htrim hne
    · have hnew := isWellFormed_newName htext.trim (List.isPrefixOf_iff_prefix.mp hcommand)
      have hnames : ∀ j name, Function.update r.name i (some (trim ((trim text).drop 8))) j =
          some name → IsWellFormed name := by
        intro j name hj
        rw [Function.update_apply] at hj
        split at hj
        · exact Option.some.inj hj ▸ hnew
        · exact hkeep j name hj
      have hupdate : Function.update r.name i (some (trim ((trim text).drop 8))) =
          Function.update server.name i
            (Function.update r.name i (some (trim ((trim text).drop 8))) i) := by
        rw [Function.update_self, hname]
      obtain ⟨hanswer, htrim, hne⟩ := isWellFormed_answer (List.mem_cons_of_mem _ List.mem_cons_self)
      have hfollows := Room.follows_reply hmembers hupdate hnames hanswer htrim hne
      rwa [Function.update_self] at hfollows
  · have hmissing : ∀ clientName, r.name i = clientName →
        r.Follows (r.tell [i] nameMissing) server (server.react i (.reply clientName nameMissing)) := by
      rintro _ rfl
      obtain ⟨hanswer, htrim, hne⟩ := isWellFormed_answer
        (List.mem_cons_of_mem _ (List.mem_cons_of_mem _ List.mem_cons_self))
      exact Room.follows_reply hmembers hsame hkeep hanswer htrim hne
    rcases hsome : r.name i with _ | _ | ⟨c, name⟩
    · exact hmissing _ hsome
    · exact hmissing _ hsome
    · dsimp only
      obtain ⟨-, hnameTrimmed⟩ := htrimmed i (c :: name) (hname ▸ hsome)
      have hline : broadcastOf (c :: name) (trim text) = (c :: name) ++ js ": " ++ trim text := by
        rw [broadcastOf_eq hnameTrimmed (List.cons_ne_nil _ _) (trimmed_trim text), if_neg hne]
        simp only [List.append_assoc]
        rfl
      have hcolon : IsWellFormed (js ": ") :=
          isWellFormed_ascii (List.all_iff_forall_prop.mp (by decide))
      rw [hline]
      apply Room.follows_broadcast hmembers hname hnodup hwell
      · exact ((hkeep i _ hsome).append hcolon).append htext.trim
      · rw [← hline]
        exact trimmed_trim _
      · exact List.append_ne_nil_of_right_ne_nil _ hne

end Follows

/-! ## The conversation and the room -/

/-- A conversation and the acts of a room. -/
structure Conversation.Reflects (maxNameLength : Option ℤ) (s : Conversation) (acts : List Act) :
    Prop where
  members : (Room.after maxNameLength acts).members = s.server.clients
  name : (Room.after maxNameLength acts).name = s.server.name
  inv : Inv s.server
  trimmed : NamesTrimmed s.server
  wellFormed : NamesWellFormed s.server
  linked : ∀ i, (s.client i).Linked ((Room.after maxNameLength acts).heard i) (saidBy i acts)

section Reflects

variable {maxNameLength : Option ℤ} {s t : Conversation} {acts : List Act} {i : ℕ}

theorem Room.after_concat (acts : List Act) (a : Act) : Room.after maxNameLength (acts ++ [a]) =
    (Room.after maxNameLength acts).act maxNameLength a :=
  List.foldl_concat ..

theorem reflects_init : Conversation.init.Reflects maxNameLength [] where
  members := rfl
  name := rfl
  inv := inv_init
  trimmed := fun _ _ h => nomatch h
  wellFormed := fun _ _ h => nomatch h
  linked := fun _ => ⟨rfl, fun _ hw => absurd hw List.not_mem_nil, rfl,
    fun _ hw => absurd hw List.not_mem_nil, rfl⟩

/-- A client does something that the room does not notice. -/
theorem Conversation.Reflects.update (h : s.Reflects maxNameLength acts) {c : Client}
    (hc : c.Linked ((Room.after maxNameLength acts).heard i) (saidBy i acts)) :
    (s.update i c).Reflects maxNameLength acts where
  members := h.members
  name := h.name
  inv := h.inv
  trimmed := h.trimmed
  wellFormed := h.wellFormed
  linked := by
    intro j
    show (Function.update s.client i c j).Linked _ _
    rcases eq_or_ne j i with rfl | hne
    · rwa [Function.update_self]
    · rw [Function.update_of_ne hne]
      exact h.linked j

/-- The server does what happens in the room. -/
theorem Conversation.Reflects.serve (h : s.Reflects maxNameLength acts) {e : Event}
    {server : System} (hstep : Step maxNameLength s.server e server) (he : ∀ i, e ≠ .error i)
    {a : Act} (hfollows : (Room.after maxNameLength acts).Follows
      ((Room.after maxNameLength acts).act maxNameLength a) s.server server)
    {client : ℕ → Client} (hclient : ∀ j, (client j).Linked
      ((Room.after maxNameLength acts).heard j) (saidBy j (acts ++ [a]))) :
    (Conversation.serve { s with client := client } server).Reflects maxNameLength (acts ++ [a]) where
  members := by
    rw [Room.after_concat]
    exact hfollows.members
  name := by
    rw [Room.after_concat]
    exact hfollows.name
  inv := hstep.inv h.inv he
  trimmed := hstep.namesTrimmed h.trimmed
  wellFormed := hfollows.names
  linked := by
    intro j
    rw [Room.after_concat, hfollows.heard]
    exact (hclient j).hear (hfollows.lines j)

theorem saidBy_concat_speaks (i j : ℕ) (text : JsString) : saidBy j (acts ++ [.speaks i text]) =
    saidBy j acts ++ if i = j then [text] else [] := by
  rw [saidBy, List.filterMap_append]
  congr 1
  by_cases hself : i = j <;> simp [hself]

/-- The first write of a client arrives. -/
theorem Conversation.Reflects.arrive (h : s.Reflects maxNameLength acts) {w : List UInt8}
    {outbox : List (List UInt8)} (houtbox : (s.client i).outbox = w :: outbox) {server : System}
    (hnext : s.server.next maxNameLength (.data i w) = some server) : ∃ a,
      (((s.update i { s.client i with outbox := outbox }).serve server).Reflects maxNameLength
        (acts ++ [a])) := by
  have hlinked := h.linked i
  obtain ⟨text, rfl, htext, hne⟩ := hlinked.sends w (houtbox ▸ List.mem_cons_self)
  refine ⟨.speaks i text, ?_⟩
  have hstep : Step maxNameLength s.server (.data i (utf8Encode text)) server := hnext
  obtain ⟨-, hserver⟩ := Option.ite_none_right_eq_some.mp hnext
  obtain rfl := Option.some.inj hserver
  apply h.serve hstep nofun
  · exact Room.follows_speaks h.members h.name h.inv.nodup h.trimmed h.wellFormed htext hne
  · intro j
    rw [saidBy_concat_speaks]
    rcases eq_or_ne j i with rfl | hother
    · rw [Function.update_self, if_pos rfl]
      have hspoken := hlinked.say houtbox
      rwa [utf8Decode_utf8Encode htext] at hspoken
    · rw [Function.update_of_ne hother, if_neg hother.symm, List.append_nil]
      exact h.linked j

/-- **One move** of the clients and the server is at most one act of the room. -/
theorem Conversation.Reflects.move (h : s.Reflects maxNameLength acts) {m : Move}
    (hwhole : WholeWrites s m) (hmove : Moves maxNameLength s m t) :
    ∃ more, t.Reflects maxNameLength (acts ++ more) := by
  have hstays : s.Reflects maxNameLength (acts ++ []) := (List.append_nil acts).symm ▸ h
  -- an act without a word
  have hquiet : ∀ a : Act, (∀ j text, a ≠ .speaks j text) → ∀ j, saidBy j (acts ++ [a]) = saidBy j acts := by
    intro a ha j
    rw [saidBy, List.filterMap_append]
    cases a with
    | speaks i text => exact absurd rfl (ha i text)
    | joins i | leaves i => exact List.append_nil _
  cases m with
  | connect =>
    obtain ⟨server, hnext, rfl⟩ := Option.map_eq_some_iff.mp hmove
    have hstep : Step maxNameLength s.server .connection server := hnext
    obtain ⟨-, hserver⟩ := Option.ite_none_right_eq_some.mp hnext
    obtain rfl := Option.some.inj hserver
    refine ⟨[.joins s.server.connections], h.serve hstep nofun ?_ fun j => ?_⟩
    · exact Room.follows_silent rfl rfl (congrArg (· ++ [_]) h.members) h.name h.wellFormed
    · rw [hquiet (.joins _) nofun]
      exact h.linked j
  | enter i input =>
    obtain ⟨-, ht⟩ := Option.ite_none_right_eq_some.mp hmove
    obtain rfl := Option.some.inj ht
    exact ⟨[], hstays.update ((hstays.linked i).enter input)⟩
  | leave i =>
    obtain ⟨-, ht⟩ := Option.ite_none_right_eq_some.mp hmove
    obtain rfl := Option.some.inj ht
    exact ⟨[], hstays.update (hstays.linked i).leave⟩
  | arrive i n =>
    obtain ⟨-, hmove⟩ := Option.ite_none_right_eq_some.mp hmove
    obtain ⟨server, hnext, rfl⟩ := Option.map_eq_some_iff.mp hmove
    obtain ⟨w, hhead, hn⟩ := Option.map_eq_some_iff.mp hwhole
    obtain ⟨outbox, houtbox⟩ := List.head?_eq_some_iff.mp hhead
    have hsends := (h.linked i).sends
    rw [houtbox] at hsends
    have hrest : ∀ v ∈ outbox, v ≠ [] := by
      intro v hv
      obtain ⟨text, rfl, -, hne⟩ := hsends v (List.mem_cons_of_mem _ hv)
      exact utf8Encode_ne_nil_of_trim hne
    have hlength : n = [w].flatten.length := by
      rw [List.flatten_singleton]
      exact hn.symm
    obtain ⟨hbytes, hleft⟩ := cut_writes hlength hrest
    rw [List.flatten_singleton] at hbytes
    rw [houtbox] at hnext ⊢
    have hbytes : (w :: outbox).flatten.take n = w := hbytes
    have hleft : advance n (w :: outbox) = outbox := hleft
    rw [hbytes] at hnext
    rw [hleft]
    obtain ⟨a, ha⟩ := h.arrive houtbox hnext
    exact ⟨[a], ha⟩
  | ended i =>
    obtain ⟨-, hmove⟩ := Option.ite_none_right_eq_some.mp hmove
    obtain ⟨server, hnext, rfl⟩ := Option.map_eq_some_iff.mp hmove
    have hstep : Step maxNameLength s.server (.ended i) server := hnext
    obtain ⟨-, hserver⟩ := Option.ite_none_right_eq_some.mp hnext
    obtain rfl := Option.some.inj hserver
    refine ⟨[.leaves i], h.serve hstep nofun ?_ fun j => ?_⟩
    · exact Room.follows_silent rfl rfl (congrArg (List.filter _) h.members) h.name h.wellFormed
    · rw [hquiet (.leaves i) nofun]
      exact h.linked j
  | print i n =>
    obtain ⟨⟨hbytes, -⟩, ht⟩ := Option.ite_none_right_eq_some.mp hmove
    obtain rfl := Option.some.inj ht
    obtain ⟨k, -, hk⟩ := hwhole
    have hlinked := hstays.linked i
    have hinbox := (List.take_append_drop k (s.client i).inbox).symm
    have hrest : ∀ v ∈ (s.client i).inbox.drop k, v ≠ [] := fun v hv =>
      (hlinked.lines v (List.mem_of_mem_drop hv)).ne_nil
    obtain ⟨hpart, hleft⟩ := cut_writes hk hrest
    rw [← hinbox] at hpart hleft
    rw [hpart] at hbytes
    have hsome : (s.client i).inbox.take k ≠ [] := by
      intro hnil
      rw [hnil] at hbytes
      exact hbytes rfl
    rw [hpart, hleft]
    exact ⟨[], hstays.update (hlinked.print hinbox hsome)⟩

/-- **A conversation is a room**: after every run of any number of clients in which each write of a
client arrives by itself, and the clients get what the server writes in pieces that are cut between
two writes, there are acts of a room, in one order, such that every client has printed what its
member has heard, but for the lines that are on their way to it; and every member has said what the
user of its client has entered, but for the lines that are on their way to the server. -/
theorem conversation_room {moves : List Move} (hrun : Run (Guarded WholeWrites (Moves maxNameLength))
    Conversation.init moves s) :
    ∃ acts, (Room.after maxNameLength acts).members = s.server.clients ∧ ∀ i,
      (s.client i).printed ++ (s.client i).inbox.flatMap utf8Decode =
        (Room.after maxNameLength acts).heard i ∧
      saidBy i acts ++ (s.client i).outbox.map utf8Decode = sendable (s.client i).entered := by
  have hreflects : ∃ acts, s.Reflects maxNameLength acts := by
    induction hrun with
    | nil => exact ⟨[], reflects_init⟩
    | snoc _ hlast ih =>
      obtain ⟨acts, h⟩ := ih
      obtain ⟨more, ht⟩ := h.move hlast.1 hlast.2
      exact ⟨acts ++ more, ht⟩
  obtain ⟨acts, h⟩ := hreflects
  exact ⟨acts, h.members, fun i => ⟨(h.linked i).heard, (h.linked i).said⟩⟩

end Reflects

/-- Ann and Bob talk. What the server has written to Bob comes all at once, after he has taken his
name, and the last line of Ann is on its way. -/
def annAndBob : List Move :=
  [.connect, .enter 0 " Ann ", .arrive 0 11, .connect, .enter 0 "hello", .arrive 0 5,
    .enter 1 "Bob", .arrive 1 11, .enter 1 "  hi  ", .enter 1 "", .arrive 1 2, .print 1 41,
    .enter 0 "bye"]

theorem conversation_room_annAndBob : ∃ (s : Conversation) (acts : List Act),
    (s.client 1).printed = js "Ann: hello\nServer: Name changed.\nBob: hi\n" ∧
      (Room.after (some 50) acts).members = s.server.clients ∧
      (s.client 1).printed ++ (s.client 1).inbox.flatMap utf8Decode =
        (Room.after (some 50) acts).heard 1 ∧
      saidBy 0 acts ++ (s.client 0).outbox.map utf8Decode = sendable (s.client 0).entered := by
  have hrun : ((annAndBob.foldlM (fun s m => if WholeWrites s m then s.move (some 50) m else none)
      Conversation.init).map fun s => (s.client 1).printed) =
      some (js "Ann: hello\nServer: Name changed.\nBob: hi\n") := by
    decide +kernel
  obtain ⟨s, hs, hprinted⟩ := Option.map_eq_some_iff.mp hrun
  obtain ⟨acts, hmembers, hclients⟩ := conversation_room (Run.of_guarded_foldlM hs)
  exact ⟨s, acts, hprinted, hmembers, (hclients 1).1, (hclients 0).2⟩

end NetworkServers.SocketChat
