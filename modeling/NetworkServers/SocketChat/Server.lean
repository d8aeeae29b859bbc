import Mathlib.Logic.Function.Basic
import NetworkServers.Library.Runs
import NetworkServers.Library.Trimming

/-!
# The Socket Chat Server of Phase 2

Translation of `src/phase2/src/chat/index.ts`. The program is driven by the events of its
sockets, one at a time; a socket is the number of its connection, and so is the record of
the client that `welcome` makes for it. Which events a socket can still emit depends on what
has become of it: data as long as it is open, `end` once, `error` when the connection is
reset, and `close` after it has been destroyed or has failed. The program listens to `data`
and `end` only, and an `error` event that nobody listens to ends the process.
-/

namespace NetworkServers.SocketChat

open NetworkServers.Js

/-! ## Messages -/

/-- What `receive` does with a message. -/
inductive Reaction where
  /-- The client has this name now, and gets this answer. -/
  | reply (name : Option JsString) (text : JsString)
  | broadcast (text : JsString)
deriving DecidableEq

/-- `"Server: Name too long.\n"`. -/
def nameTooLong : JsString := js "Server: Name too long.\n"

/-- `"Server: Name changed.\n"`. -/
def nameChanged : JsString := js "Server: Name changed.\n"

/-- `"Server: Please set your name first with /rename <your-name>.\n"`. -/
def nameMissing : JsString := js "Server: Please set your name first with /rename <your-name>.\n"

/-- `data.toString().trim()`. -/
def messageOf (data : List UInt8) : JsString := trim (utf8Decode data)

/-- `name.length > max_name_length`. Nothing is longer than `NaN`. -/
def isTooLong (maxNameLength : Option ℤ) (name : JsString) : Bool :=
  match maxNameLength with
  | some limit => limit < name.length
  | none => false

/-- The line that is sent to all clients, without its end. -/
def broadcastOf (name message : JsString) : JsString := trim (name ++ js ": " ++ message)

/-- `receive`, for a client with this name. -/
def receive (maxNameLength : Option ℤ) (clientName : Option JsString) (data : List UInt8) :
    Reaction :=
  let message := messageOf data
  if (js "/rename ").isPrefixOf message then
    let name := trim (message.drop 8)
    if isTooLong maxNameLength name then .reply clientName nameTooLong
    else .reply (some name) nameChanged
  else
    match clientName with
    | none | some [] => .reply clientName nameMissing
    | some (c :: name) => .broadcast (broadcastOf (c :: name) message ++ js "\n")

/-- The name of a client after a message. -/
def Reaction.nameAfter (name : Option JsString) : Reaction → Option JsString
  | .reply newName _ => newName
  | .broadcast _ => name

/-! ## The server and its sockets -/

/-- What has become of a socket. -/
inductive Life where
  | open
  /-- `destroy` has been called. -/
  | destroyed
  /-- It has emitted `error`. -/
  | failed
  /-- It has emitted `close`. -/
  | closed
deriving DecidableEq, Repr

/-- A text that is written to a client, because of a message of the client `source`, whose
name is `name` then. -/
structure Written where
  source : ℕ
  name : Option JsString
  target : ℕ
  text : JsString
  /-- An answer of the server, and not a broadcast. -/
  isReply : Bool
deriving DecidableEq

/-- The sockets that a broadcast was written to, and those that were open then. -/
structure Broadcast where
  targets : List ℕ
  opened : List ℕ
deriving DecidableEq

/-- The process and the sockets that it has been given. `name` is that of a client's record;
the log grows at its end. -/
structure System where
  running : Bool
  clients : List ℕ
  name : ℕ → Option JsString
  life : ℕ → Option Life
  connections : ℕ
  written : List Written
  broadcasts : List Broadcast

/-- Before the first connection. -/
def System.init : System where
  running := true
  clients := []
  name := fun _ => none
  life := fun _ => none
  connections := 0
  written := []
  broadcasts := []

/-- The events. -/
inductive Event where
  | connection
  | data (socket : ℕ) (data : List UInt8)
  /-- `end`. -/
  | ended (socket : ℕ)
  | error (socket : ℕ)
  | close (socket : ℕ)
deriving DecidableEq

namespace System

variable (s : System)

/-- The sockets that are open. -/
def opened : List ℕ := (List.range s.connections).filter fun i => s.life i = some .open

/-- `welcome`. -/
def welcome : System :=
  { s with clients := s.clients ++ [s.connections]
           life := Function.update s.life s.connections (some .open)
           connections := s.connections + 1 }

/-- `remove`. -/
def remove (i : ℕ) : System :=
  { s with clients := s.clients.filter fun c => c ≠ i
           life := Function.update s.life i (some .destroyed) }

/-- What the server does with a message of a client. -/
def react (i : ℕ) : Reaction → System
  | .reply name text =>
    { s with name := Function.update s.name i name
             written := s.written ++
               [{ source := i, name := name, target := i, text := text, isReply := true }] }
  | .broadcast text =>
    { s with written := s.written ++ s.clients.map fun c =>
               { source := i, name := s.name i, target := c, text := text, isReply := false }
             broadcasts := s.broadcasts ++ [{ targets := s.clients, opened := s.opened }] }

/-- The `error` of a socket, to which nobody listens. -/
def fail (i : ℕ) : System :=
  { s with running := false, life := Function.update s.life i (some .failed) }

/-- The `close` of a socket, to which nobody listens either. -/
def close (i : ℕ) : System := { s with life := Function.update s.life i (some .closed) }

/-- The state after an event, if it can occur. -/
def next (maxNameLength : Option ℤ) : Event → Option System
  | .connection => if s.running then some s.welcome else none
  | .data i data =>
    if s.running ∧ s.life i = some .open then
      some (s.react i (receive maxNameLength (s.name i) data))
    else none
  | .ended i => if s.running ∧ s.life i = some .open then some (s.remove i) else none
  | .error i => if s.running ∧ s.life i = some .open then some (s.fail i) else none
  | .close i =>
    if s.running ∧ (s.life i = some .destroyed ∨ s.life i = some .failed) then some (s.close i)
    else none

end System

/-- One event. -/
def Step (maxNameLength : Option ℤ) (s : System) (e : Event) (t : System) : Prop :=
  s.next maxNameLength e = some t

/-- All that an event can do. -/
theorem Step.cases {maxNameLength : Option ℤ} {s t : System} {e : Event}
    (h : Step maxNameLength s e t) : s.running = true ∧
      ((e = .connection ∧ t = s.welcome) ∨
      (∃ i data, e = .data i data ∧ s.life i = some .open ∧
        t = s.react i (receive maxNameLength (s.name i) data)) ∨
      (∃ i, e = .ended i ∧ s.life i = some .open ∧ t = s.remove i) ∨
      (∃ i, e = .error i ∧ s.life i = some .open ∧ t = s.fail i) ∨
      ∃ i, e = .close i ∧ (s.life i = some .destroyed ∨ s.life i = some .failed) ∧
        t = s.close i) := by
  unfold Step System.next at h
  cases e with
  | connection =>
    obtain ⟨hrunning, h⟩ := Option.ite_none_right_eq_some.mp h
    exact ⟨hrunning, .inl ⟨rfl, (Option.some.inj h).symm⟩⟩
  | data i data =>
    obtain ⟨⟨hrunning, hopen⟩, h⟩ := Option.ite_none_right_eq_some.mp h
    exact ⟨hrunning, .inr (.inl ⟨i, data, rfl, hopen, (Option.some.inj h).symm⟩)⟩
  | ended i =>
    obtain ⟨⟨hrunning, hopen⟩, h⟩ := Option.ite_none_right_eq_some.mp h
    exact ⟨hrunning, .inr (.inr (.inl ⟨i, rfl, hopen, (Option.some.inj h).symm⟩))⟩
  | error i =>
    obtain ⟨⟨hrunning, hopen⟩, h⟩ := Option.ite_none_right_eq_some.mp h
    exact ⟨hrunning, .inr (.inr (.inr (.inl ⟨i, rfl, hopen, (Option.some.inj h).symm⟩)))⟩
  | close i =>
    obtain ⟨⟨hrunning, hgone⟩, h⟩ := Option.ite_none_right_eq_some.mp h
    exact ⟨hrunning, .inr (.inr (.inr (.inr ⟨i, rfl, hgone, (Option.some.inj h).symm⟩)))⟩

end NetworkServers.SocketChat
