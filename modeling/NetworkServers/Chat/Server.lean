import Mathlib.Logic.Function.Basic
import NetworkServers.Library.CString
import NetworkServers.Library.Runs
import NetworkServers.Library.SwapRemove

/-!
# The Chat Server in C

Translation of `src/src/chat-server.c`: the registry of clients, what a handler makes of a
message, and the interleaving of the accept thread with the handler threads. A section
under `server_mutex` is one step. A `ChatClient *` is the number of its `malloc`; a freed
record is gone from the heap, and a thread that would use it does not move.

The kernel is kept as far as the server sees it: which connection stands behind a
descriptor, and what has been sent to it. `max_clients` is not used by the source, and the
debug output has no effect; both are left out.
-/

namespace NetworkServers.Chat

open NetworkServers.CString NetworkServers.Runs NetworkServers.SwapRemove

/-! ## The registry -/

/-- `ChatClient *`. -/
abbrev ClientRef := ℕ

/-- `struct ChatClient`. -/
structure ChatClient where
  name : List UInt8
  socket : ℤ
deriving DecidableEq, Repr

/-- The sizes in `struct ChatServerConfig`. -/
structure ChatServerConfig where
  maxNameLength : ℕ
  messageBufferSize : ℕ

/-- `struct ChatServer` with its heap. `clients` are the first `client_count` elements of
the array, and `clientIncrement` counts the records ever made. -/
structure ChatServer where
  clients : List ClientRef
  clientIncrement : ℕ
  heap : ClientRef → Option ChatClient

/-- `init_chat_server`. -/
def ChatServer.init : ChatServer := { clients := [], clientIncrement := 0, heap := fun _ => none }

/-- The digits that `%03zu` prints. -/
def paddedDigits (n : ℕ) : List UInt8 :=
  let digits := (Nat.toDigits 10 n).map fun c => c.toNat.toUInt8
  List.replicate (3 - digits.length) 48 ++ digits

/-- The name of a new client. -/
def initialName (n : ℕ) : List UInt8 := bytes "Client #" ++ paddedDigits (n % 2 ^ 64)

/-- The locked section of `add_chat_client`. -/
def ChatServer.addChatClient (server : ChatServer) (socket : ℤ) : ChatServer where
  clients := server.clients ++ [server.clientIncrement]
  clientIncrement := server.clientIncrement + 1
  heap := Function.update server.heap server.clientIncrement
    (some { name := initialName server.clientIncrement, socket := socket })

/-- The value that `add_chat_client` reads after the section. -/
def ChatServer.lastClient (server : ChatServer) (_created : ClientRef) : Option ClientRef :=
  server.clients.getLast?

/-- Whether a registered record has this socket. -/
def ChatServer.hasSocket (server : ChatServer) (socket : ℤ) (r : ClientRef) : Bool :=
  (server.heap r).map ChatClient.socket = some socket

/-- The loop of `remove_chat_client`: the first record with this socket, and its place. -/
def ChatServer.find (server : ChatServer) (socket : ℤ) : Option (ℕ × ClientRef) := do
  let i ← server.clients.findIdx? (server.hasSocket socket)
  let r ← server.clients[i]?
  return (i, r)

/-- The locked section of `remove_chat_client`, without `close`. -/
def ChatServer.removeChatClient (server : ChatServer) (socket : ℤ) : ChatServer :=
  match server.find socket with
  | none => server
  | some (i, r) =>
    { server with clients := swapRemove server.clients i, heap := Function.update server.heap r none }

/-- Write to a record. -/
def ChatServer.write (server : ChatServer) (r : ClientRef) (c : ChatClient) : ChatServer :=
  { server with heap := Function.update server.heap r (some c) }

/-! ## Messages -/

/-- The string in a buffer. -/
def cString (buffer : List UInt8) : List UInt8 := buffer.takeWhile (· ≠ 0)

/-- What `strtok(s, "\n")` leaves of the string at `s`: the token ends at the first newline
behind it, and newlines in front of it are not cut off. -/
def cutAtNewline (s : List UInt8) : List UInt8 :=
  s.takeWhile (· = 10) ++ (s.dropWhile (· = 10)).takeWhile (· ≠ 10)

/-- What a handler does with a message. -/
inductive Reaction where
  /-- The client has this name now, and gets this answer. -/
  | reply (name text : List UInt8)
  | broadcast (text : List UInt8)
deriving DecidableEq

/-- The body of the loop in `handle_chat_client`, after `recv`. -/
def react (config : ChatServerConfig) (name data : List UInt8) : Reaction :=
  let buffer := cString data
  if (bytes "/rename ").isPrefixOf buffer then
    let newName := cutAtNewline (buffer.drop 8)
    if newName.length > config.maxNameLength then .reply name (bytes "Server: Name too long.")
    else .reply newName (bytes "Server: Name changed.")
  else .broadcast (name ++ bytes ": " ++ buffer)

/-! ## Threads -/

/-- Where the accept thread stands in the loop of `_start_chat_server`. -/
inductive Accepting where
  /-- In `accept`. -/
  | waits
  /-- `accept` has returned this descriptor, of this connection. -/
  | adds (socket : ℤ) (conn : Option ℕ)
  /-- Behind the locked section of `add_chat_client`, which has made the record `created`
  as the last one of `count`. Records at `positions` have been removed since. -/
  | returns (created : ClientRef) (count : ℕ) (positions : List ℕ)
  /-- `add_chat_client` has returned, with no pointer to a record if the array was empty; the
  thread is created next. -/
  | spawns (client : Option ClientRef)
deriving DecidableEq

/-- Where a handler stands in the loop of `handle_chat_client`. -/
inductive Phase where
  /-- In `recv`. -/
  | receives
  /-- The answer to a rename is sent next. -/
  | replies (text : List UInt8)
  /-- The broadcast of a message is sent next. -/
  | broadcasts (message text : List UInt8)
  /-- `remove_chat_client` is called next. -/
  | leaves
  | exited
deriving DecidableEq

/-- A handler thread with its argument, and the messages for others that it has got. -/
structure Handler where
  client : ClientRef
  phase : Phase
  heard : List (List UInt8)

/-- What is sent on a connection. -/
inductive Packet where
  | reply (text : List UInt8)
  /-- A broadcast with its number. -/
  | broadcast (number : ℕ) (text : List UInt8)
deriving DecidableEq

/-- A broadcast as it has taken place: the handler, the message, the text that was sent, the
clients that were registered, and the connections behind the descriptors that were written
to, `none` where a descriptor was not open. -/
structure Broadcast where
  thread : ℕ
  message : List UInt8
  text : List UInt8
  clients : List ClientRef
  targets : List (Option ℕ)

/-- The server, its threads, and the kernel. -/
structure System where
  server : ChatServer
  accepting : Accepting
  threads : List Handler
  /-- The connection behind an open descriptor. -/
  conns : ℤ → Option ℕ
  /-- How many connections there have been. -/
  connections : ℕ
  /-- What has been sent on a connection. -/
  sent : ℕ → List Packet
  /-- The connection that a record was made for. -/
  connOf : ClientRef → Option ℕ
  /-- The records made by `add_chat_client` and the ones it has returned for them. -/
  returned : List (ClientRef × Option ClientRef)
  /-- The records passed to `remove_chat_client` and the ones it has freed for them. -/
  removed : List (ClientRef × Option ClientRef)
  /-- The broadcasts, oldest first. -/
  log : List Broadcast

/-- Before the first connection. -/
def System.init : System where
  server := .init
  accepting := .waits
  threads := []
  conns := fun _ => none
  connections := 0
  sent := fun _ => []
  connOf := fun _ => none
  returned := []
  removed := []
  log := []

/-- What happens next. -/
inductive Label where
  /-- `accept` returns this descriptor. -/
  | accept (socket : ℤ)
  /-- `accept` returns -1. -/
  | acceptFails
  /-- The locked section of `add_chat_client`. -/
  | add
  /-- `add_chat_client` returns. -/
  | handOver
  /-- `pthread_create`. -/
  | spawn
  /-- `recv` returns data to a handler. -/
  | receive (thread : ℕ) (data : List UInt8)
  /-- `recv` returns 0 or -1. -/
  | hangUp (thread : ℕ)
  /-- The answer to a rename is sent. -/
  | reply (thread : ℕ)
  /-- The locked section of a broadcast. -/
  | broadcast (thread : ℕ)
  /-- `remove_chat_client`. -/
  | remove (thread : ℕ)
deriving DecidableEq

/-- Send a packet on some connections, one after the other. -/
def deliver (sent : ℕ → List Packet) (packet : Packet) : List (Option ℕ) → ℕ → List Packet
  | [] => sent
  | none :: targets => deliver sent packet targets
  | some conn :: targets =>
    deliver (Function.update sent conn (sent conn ++ [packet])) packet targets

/-- The connections that the loop of a broadcast writes to. -/
def System.targets (s : System) : List (Option ℕ) :=
  s.server.clients.map fun r => (s.server.heap r).bind fun c => s.conns c.socket

/-- The window of `add_chat_client` after a removal. -/
def Accepting.after : Accepting → Option (ℕ × ClientRef) → Accepting
  | .returns created count positions, some (i, _) => .returns created count (positions ++ [i])
  | accepting, _ => accepting

/-- A handler after `recv` has returned data. -/
def Handler.after (h : Handler) (message : List UInt8) : Reaction → Handler
  | .reply _ text => { h with phase := .replies text }
  | .broadcast text =>
    { h with phase := .broadcasts message text, heard := h.heard ++ [message] }

/-- The record of a client after its message. -/
def ChatClient.after (c : ChatClient) : Reaction → ChatClient
  | .reply name _ => { c with name := name }
  | .broadcast _ => c

/-! ## Steps -/

namespace System

variable (s : System)

/-- `accept` has returned an open descriptor of a new connection. -/
def accepted (socket : ℤ) : System :=
  { s with accepting := .adds socket (some s.connections)
           conns := Function.update s.conns socket (some s.connections)
           connections := s.connections + 1 }

/-- `accept` has returned -1. -/
def acceptFailed : System := { s with accepting := .adds (-1) none }

/-- The locked section of `add_chat_client` is over. -/
def added (socket : ℤ) (conn : Option ℕ) : System :=
  { s with server := s.server.addChatClient socket
           accepting := .returns s.server.clientIncrement (s.server.clients.length + 1) []
           connOf := Function.update s.connOf s.server.clientIncrement conn }

/-- `add_chat_client` has returned. -/
def handedOver (created : ClientRef) (client : Option ClientRef) : System :=
  { s with accepting := .spawns client, returned := s.returned ++ [(created, client)] }

/-- The thread for a record has been created. -/
def spawned (client : ClientRef) : System :=
  { s with accepting := .waits
           threads := s.threads ++ [{ client := client, phase := .receives, heard := [] }] }

/-- `recv` has returned data to a handler, which has written to its record. -/
def received (i : ℕ) (h : Handler) (c : ChatClient) (data : List UInt8) (reaction : Reaction) :
    System :=
  { s with threads := s.threads.set i (h.after data reaction)
           server := s.server.write h.client (c.after reaction) }

/-- A handler goes on. -/
def proceeds (i : ℕ) (h : Handler) (phase : Phase) : System :=
  { s with threads := s.threads.set i { h with phase := phase } }

/-- The answer to a rename has been sent. -/
def replied (i : ℕ) (h : Handler) (c : ChatClient) (text : List UInt8) : System :=
  { s.proceeds i h .receives with sent := deliver s.sent (.reply text) [s.conns c.socket] }

/-- The locked section of a broadcast is over. -/
def broadcasted (i : ℕ) (h : Handler) (message text : List UInt8) : System :=
  { s.proceeds i h .receives with
    sent := deliver s.sent (.broadcast s.log.length text) s.targets
    log := s.log ++ [{ thread := i, message := message, text := text, clients := s.server.clients
                       targets := s.targets }] }

/-- `remove_chat_client` has returned, and the handler has exited. -/
def left (i : ℕ) (h : Handler) (c : ChatClient) : System :=
  { s.proceeds i h .exited with
    server := s.server.removeChatClient c.socket
    conns := Function.update s.conns c.socket none
    accepting := s.accepting.after (s.server.find c.socket)
    removed := s.removed ++ [(h.client, (s.server.find c.socket).map Prod.snd)] }

end System

/-- One step of the system, for the value that `add_chat_client` returns. -/
inductive Step (config : ChatServerConfig)
    (returns : ChatServer → ClientRef → Option ClientRef) (s : System) : Label → System → Prop where
  | accept {socket : ℤ} (hphase : s.accepting = .waits) (hsocket : 0 ≤ socket)
      (hclosed : s.conns socket = none) :
      Step config returns s (.accept socket) (s.accepted socket)
  | acceptFails (hphase : s.accepting = .waits) : Step config returns s .acceptFails s.acceptFailed
  | add {socket : ℤ} {conn : Option ℕ} (hphase : s.accepting = .adds socket conn) :
      Step config returns s .add (s.added socket conn)
  | handOver {created count : ℕ} {positions : List ℕ}
      (hphase : s.accepting = .returns created count positions) :
      Step config returns s .handOver (s.handedOver created (returns s.server created))
  | spawn {client : ClientRef} (hphase : s.accepting = .spawns (some client)) :
      Step config returns s .spawn (s.spawned client)
  | receive {i : ℕ} {data : List UInt8} {h : Handler} {c : ChatClient}
      (hthread : s.threads[i]? = some h) (hphase : h.phase = .receives)
      (hrecord : s.server.heap h.client = some c) (hopen : (s.conns c.socket).isSome)
      (hdata : 0 < data.length ∧ data.length ≤ config.messageBufferSize) :
      Step config returns s (.receive i data) (s.received i h c data (react config c.name data))
  | hangUp {i : ℕ} {h : Handler} {c : ChatClient} (hthread : s.threads[i]? = some h)
      (hphase : h.phase = .receives) (hrecord : s.server.heap h.client = some c) :
      Step config returns s (.hangUp i) (s.proceeds i h .leaves)
  | reply {i : ℕ} {h : Handler} {c : ChatClient} {text : List UInt8}
      (hthread : s.threads[i]? = some h) (hphase : h.phase = .replies text)
      (hrecord : s.server.heap h.client = some c) :
      Step config returns s (.reply i) (s.replied i h c text)
  | broadcast {i : ℕ} {h : Handler} {message text : List UInt8}
      (hthread : s.threads[i]? = some h) (hphase : h.phase = .broadcasts message text) :
      Step config returns s (.broadcast i) (s.broadcasted i h message text)
  | remove {i : ℕ} {h : Handler} {c : ChatClient} (hthread : s.threads[i]? = some h)
      (hphase : h.phase = .leaves) (hrecord : s.server.heap h.client = some c) :
      Step config returns s (.remove i) (s.left i h c)

/-- The step with a label, computed. -/
def System.next (config : ChatServerConfig) (returns : ChatServer → ClientRef → Option ClientRef)
    (s : System) : Label → Option System
  | .accept socket =>
    if s.accepting = .waits ∧ 0 ≤ socket ∧ s.conns socket = none then some (s.accepted socket)
    else none
  | .acceptFails => if s.accepting = .waits then some s.acceptFailed else none
  | .add =>
    match s.accepting with
    | .adds socket conn => some (s.added socket conn)
    | _ => none
  | .handOver =>
    match s.accepting with
    | .returns created _ _ => some (s.handedOver created (returns s.server created))
    | _ => none
  | .spawn =>
    match s.accepting with
    | .spawns (some client) => some (s.spawned client)
    | _ => none
  | .receive i data => do
    let h ← s.threads[i]?
    let c ← s.server.heap h.client
    if h.phase = .receives ∧ (s.conns c.socket).isSome ∧
        0 < data.length ∧ data.length ≤ config.messageBufferSize then
      some (s.received i h c data (react config c.name data))
    else none
  | .hangUp i => do
    let h ← s.threads[i]?
    let _ ← s.server.heap h.client
    if h.phase = .receives then some (s.proceeds i h .leaves) else none
  | .reply i => do
    let h ← s.threads[i]?
    let c ← s.server.heap h.client
    match h.phase with
    | .replies text => some (s.replied i h c text)
    | _ => none
  | .broadcast i => do
    let h ← s.threads[i]?
    match h.phase with
    | .broadcasts message text => some (s.broadcasted i h message text)
    | _ => none
  | .remove i => do
    let h ← s.threads[i]?
    let c ← s.server.heap h.client
    if h.phase = .leaves then some (s.left i h c) else none

/-- What is computed is a step. -/
theorem Step.of_next {config : ChatServerConfig}
    {returns : ChatServer → ClientRef → Option ClientRef} {s t : System} {l : Label}
    (h : s.next config returns l = some t) : Step config returns s l t := by
  cases l with
  | accept socket =>
    obtain ⟨⟨hphase, hsocket, hclosed⟩, h⟩ := Option.ite_none_right_eq_some.mp h
    exact Option.some.inj h ▸ .accept hphase hsocket hclosed
  | acceptFails =>
    obtain ⟨hphase, h⟩ := Option.ite_none_right_eq_some.mp h
    exact Option.some.inj h ▸ .acceptFails hphase
  | add =>
    simp only [System.next] at h
    split at h
    · exact Option.some.inj h ▸ .add ‹_›
    · cases h
  | handOver =>
    simp only [System.next] at h
    split at h
    · exact Option.some.inj h ▸ .handOver ‹_›
    · cases h
  | spawn =>
    simp only [System.next] at h
    split at h
    · exact Option.some.inj h ▸ .spawn ‹_›
    · cases h
  | receive i data =>
    obtain ⟨x, hthread, h⟩ := Option.bind_eq_some_iff.mp h
    obtain ⟨c, hrecord, h⟩ := Option.bind_eq_some_iff.mp h
    obtain ⟨⟨hphase, hopen, hdata⟩, h⟩ := Option.ite_none_right_eq_some.mp h
    exact Option.some.inj h ▸ .receive hthread hphase hrecord hopen hdata
  | hangUp i =>
    obtain ⟨x, hthread, h⟩ := Option.bind_eq_some_iff.mp h
    obtain ⟨c, hrecord, h⟩ := Option.bind_eq_some_iff.mp h
    obtain ⟨hphase, h⟩ := Option.ite_none_right_eq_some.mp h
    exact Option.some.inj h ▸ .hangUp hthread hphase hrecord
  | reply i =>
    obtain ⟨x, hthread, h⟩ := Option.bind_eq_some_iff.mp h
    obtain ⟨c, hrecord, h⟩ := Option.bind_eq_some_iff.mp h
    split at h
    · exact Option.some.inj h ▸ .reply hthread ‹_› hrecord
    · cases h
  | broadcast i =>
    obtain ⟨x, hthread, h⟩ := Option.bind_eq_some_iff.mp h
    split at h
    · exact Option.some.inj h ▸ .broadcast hthread ‹_›
    · cases h
  | remove i =>
    obtain ⟨x, hthread, h⟩ := Option.bind_eq_some_iff.mp h
    obtain ⟨c, hrecord, h⟩ := Option.bind_eq_some_iff.mp h
    obtain ⟨hphase, h⟩ := Option.ite_none_right_eq_some.mp h
    exact Option.some.inj h ▸ .remove hthread hphase hrecord

/-- The run on a list of labels, computed. -/
def System.run (config : ChatServerConfig) (returns : ChatServer → ClientRef → Option ClientRef)
    (ls : List Label) : Option System :=
  ls.foldlM (fun s l => s.next config returns l) System.init

/-- What has been computed of a run is so after a run. -/
theorem run_of_labels {config : ChatServerConfig}
    {returns : ChatServer → ClientRef → Option ClientRef} {ls : List Label} {α : Type}
    {f : System → α} {a : α} (h : (System.run config returns ls).map f = some a) :
    ∃ s, Run (Step config returns) System.init ls s ∧ f s = a := by
  obtain ⟨s, hs, hf⟩ := Option.map_eq_some_iff.mp h
  exact ⟨s, (Run.of_foldlM hs).mono fun _ _ _ => Step.of_next, hf⟩

/-- What `add_chat_client` should return. -/
def ownRecord (_server : ChatServer) (created : ClientRef) : Option ClientRef := some created

/-- Sizes for the examples. -/
def smallConfig : ChatServerConfig := { maxNameLength := 32, messageBufferSize := 16 }

end NetworkServers.Chat
