import NetworkServers.Chat.Registry

/-!
# The Sockets of the Registered Clients

`remove_chat_client` searches by the number of the descriptor, and a broadcast writes to
the descriptors in the registry. Both rest on what holds after every step: a registered
client whose `accept` has not failed has an open descriptor, with the connection that the
record was made for behind it, and no two records are made for one connection. Closing the
descriptor and dropping the record is one step, so this also holds when the number of a
descriptor is used again.
-/

namespace NetworkServers.Chat

open NetworkServers.Runs

/-- A removal does not change what `accept` has returned. -/
theorem Accepting.of_after {accepting : Accepting} {found : Option (ℕ × ClientRef)} {socket : ℤ}
    {conn : Option ℕ} (h : accepting.after found = .adds socket conn) :
    accepting = .adds socket conn := by
  unfold Accepting.after at h
  split at h
  · cases h
  · exact h

theorem ChatClient.after_socket (c : ChatClient) (reaction : Reaction) :
    (c.after reaction).socket = c.socket := by
  cases reaction <;> rfl

/-- The descriptors of the registered clients, and of the one that is about to be added. -/
structure SocketInv (s : System) : Prop where
  registry : s.server.WellFormed
  /-- A record has an open descriptor of its own connection, or a failed `accept` behind it. -/
  record : ∀ r c, s.server.heap r = some c →
    c.socket = -1 ∨ ∃ conn, s.connOf r = some conn ∧ s.conns c.socket = some conn
  pending : ∀ socket conn, s.accepting = .adds socket conn →
    socket = -1 ∧ conn = none ∨
      socket ≠ -1 ∧ ∃ k, conn = some k ∧ s.conns socket = some k ∧ ∀ r, s.connOf r ≠ some k
  distinct : ∀ r r' conn, s.connOf r = some conn → s.connOf r' = some conn → r = r'
  openBound : ∀ socket conn, s.conns socket = some conn → conn < s.connections
  madeBound : ∀ r conn, s.connOf r = some conn → conn < s.connections

section Sockets

variable {config : ChatServerConfig} {returns : ChatServer → ClientRef → Option ClientRef}
  {s t : System} {l : Label} {ls : List Label}

theorem SocketInv.init : SocketInv System.init where
  registry := .init
  record := nofun
  pending := nofun
  distinct := nofun
  openBound := nofun
  madeBound := nofun

namespace SocketInv

/-- **Distinct sockets**: two live records share a descriptor only if `accept` has failed for
both of them. -/
theorem eq_of_socket (h : SocketInv s) {r r' : ClientRef} {c c' : ChatClient}
    (hr : s.server.heap r = some c) (hr' : s.server.heap r' = some c') (hsocket : c.socket = c'.socket)
    (hfailed : c.socket ≠ -1) : r = r' := by
  obtain ⟨conn, hconn, hopen⟩ := (h.record r c hr).resolve_left hfailed
  obtain ⟨conn', hconn', hopen'⟩ := (h.record r' c' hr').resolve_left (hsocket ▸ hfailed)
  rw [← hsocket, hopen] at hopen'
  obtain rfl := Option.some.inj hopen'
  exact h.distinct r r' conn hconn hconn'

/-- A record with a descriptor is found by it. -/
theorem find_own (h : SocketInv s) {r : ClientRef} {c : ChatClient} (hr : s.server.heap r = some c)
    (hfailed : c.socket ≠ -1) : ∃ i, s.server.find c.socket = some (i, r) := by
  obtain ⟨i, r', hfind⟩ := find_isSome (h.registry.mem_of_record hr) ((hasSocket_iff hr).mpr rfl)
  obtain ⟨hi, hsocket, -⟩ := find_eq_some hfind
  obtain ⟨c', hr'⟩ := h.registry.record (List.mem_of_getElem? hi)
  have hsame := ((hasSocket_iff hr').mp hsocket).symm
  obtain rfl := h.eq_of_socket hr hr' hsame hfailed
  exact ⟨i, hfind⟩

theorem accepted (h : SocketInv s) {socket : ℤ} (hsocket : 0 ≤ socket) (hclosed : s.conns socket = none) :
    SocketInv (s.accepted socket) where
  registry := h.registry
  record := by
    intro r c hr
    rcases h.record r c hr with hfailed | ⟨conn, hconn, hopen⟩
    · exact .inl hfailed
    · -- the descriptor of a live record is open, so it is not the new one
      have hne : c.socket ≠ socket := by
        rintro heq
        rw [heq, hclosed] at hopen
        cases hopen
      exact .inr ⟨conn, hconn, (Function.update_of_ne hne _ _).trans hopen⟩
  pending := by
    intro socket' conn haccepting
    obtain ⟨rfl, rfl⟩ := Accepting.adds.inj haccepting
    refine .inr ⟨by omega, _, rfl, Function.update_self _ _ _, fun r hr => ?_⟩
    exact Nat.lt_irrefl _ (h.madeBound r _ hr)
  distinct := h.distinct
  openBound := by
    intro socket' conn hopen
    rcases update_eq_some hopen with ⟨-, hnew⟩ | ⟨-, hopen⟩
    · exact Nat.lt_succ_of_le (Option.some.inj hnew).ge
    · exact Nat.lt_succ_of_lt (h.openBound socket' conn hopen)
  madeBound := fun r conn hr => Nat.lt_succ_of_lt (h.madeBound r conn hr)

theorem added (h : SocketInv s) {socket : ℤ} {conn : Option ℕ}
    (hphase : s.accepting = .adds socket conn) : SocketInv (s.added socket conn) := by
  have hpending := h.pending socket conn hphase
  -- a record is the new one, or what is known of it has not changed
  have hcases : ∀ r k, (s.added socket conn).connOf r = some k →
      r = s.server.clientIncrement ∧ conn = some k ∨ s.connOf r = some k :=
    fun r k hr => (update_eq_some hr).imp_right And.right
  have hfresh : ∀ r k, conn = some k → s.connOf r ≠ some k := by
    rintro r k rfl
    obtain ⟨-, hnone⟩ | ⟨-, k', hk, -, hfresh⟩ := hpending
    · cases hnone
    · obtain rfl := Option.some.inj hk
      exact hfresh r
  refine ⟨h.registry.add, fun r c hr => ?_, nofun, fun r r' k hr hr' => ?_, h.openBound,
    fun r k hr => ?_⟩
  · rcases update_eq_some hr with ⟨rfl, hnew⟩ | ⟨hne, hr⟩
    · obtain rfl := Option.some.inj hnew
      obtain ⟨hfailed, -⟩ | ⟨-, k, rfl, hopen, -⟩ := hpending
      · exact .inl hfailed
      · exact .inr ⟨k, Function.update_self _ _ _, hopen⟩
    · obtain hfailed | ⟨k, hk, hopen⟩ := h.record r c hr
      · exact .inl hfailed
      · exact .inr ⟨k, (Function.update_of_ne hne _ _).trans hk, hopen⟩
  · rcases hcases r k hr with ⟨rfl, hnew⟩ | hold
    · rcases hcases r' k hr' with ⟨rfl, -⟩ | hold'
      · rfl
      · exact absurd hold' (hfresh r' k hnew)
    · rcases hcases r' k hr' with ⟨rfl, hnew⟩ | hold'
      · exact absurd hold (hfresh r k hnew)
      · exact h.distinct r r' k hold hold'
  · rcases hcases r k hr with ⟨rfl, rfl⟩ | hold
    · obtain ⟨-, hnone⟩ | ⟨-, k', hk, hopen, -⟩ := hpending
      · cases hnone
      · obtain rfl := Option.some.inj hk
        exact h.openBound socket k hopen
    · exact h.madeBound r k hold

/-- A handler changes the name in its record only. -/
theorem received (h : SocketInv s) {i : ℕ} {x : Handler} {c : ChatClient} {data : List UInt8}
    {reaction : Reaction} (hrecord : s.server.heap x.client = some c) :
    SocketInv (s.received i x c data reaction) := by
  refine ⟨h.registry.write hrecord, fun r c' hr => ?_, h.pending, h.distinct, h.openBound, h.madeBound⟩
  rcases update_eq_some hr with ⟨rfl, hnew⟩ | ⟨-, hr⟩
  · rw [← Option.some.inj hnew, ChatClient.after_socket]
    exact h.record _ c hrecord
  · exact h.record r c' hr

/-- A record that `remove_chat_client` leaves has another descriptor than the closed one. -/
theorem of_left (h : SocketInv s) {r r' : ClientRef} {c c' : ChatClient}
    (hrecord : s.server.heap r = some c)
    (hr' : (s.server.removeChatClient c.socket).heap r' = some c') :
    s.server.heap r' = some c' ∧ (c'.socket ≠ -1 → c'.socket ≠ c.socket) := by
  obtain ⟨i, freed, hfind⟩ :=
    find_isSome (h.registry.mem_of_record hrecord) ((hasSocket_iff hrecord).mpr rfl)
  rw [ChatServer.removeChatClient, hfind] at hr'
  obtain ⟨-, hnone⟩ | ⟨hne, hr'⟩ := update_eq_some hr'
  · cases hnone
  refine ⟨hr', fun hfailed hsocket => hne ?_⟩
  -- the closed descriptor belongs to one record, which is the one that is freed
  obtain ⟨j, hown⟩ := h.find_own hr' hfailed
  rw [hsocket, hfind] at hown
  exact (Prod.mk.inj (Option.some.inj hown)).2.symm

/-- `remove_chat_client` closes a descriptor that no other registered client has. -/
theorem left (h : SocketInv s) {i : ℕ} {x : Handler} {c : ChatClient}
    (hrecord : s.server.heap x.client = some c) : SocketInv (s.left i x c) where
  registry := h.registry.remove
  record := by
    intro r c' hr
    obtain ⟨hr, hother⟩ := h.of_left hrecord hr
    rcases h.record r c' hr with hfailed | ⟨conn, hconn, hopen⟩
    · exact .inl hfailed
    · rcases eq_or_ne c'.socket (-1) with hfailed | hne
      · exact .inl hfailed
      · exact .inr ⟨conn, hconn, (Function.update_of_ne (hother hne) _ _).trans hopen⟩
  pending := by
    intro socket conn haccepting
    rcases h.pending socket conn (Accepting.of_after haccepting) with hfailed | ⟨hfailed, k, rfl, hopen, hfresh⟩
    · exact .inl hfailed
    · -- a descriptor that is about to be added belongs to no record yet
      have hne : socket ≠ c.socket := by
        rintro rfl
        obtain ⟨k', hk', hopen'⟩ := (h.record _ c hrecord).resolve_left hfailed
        exact hfresh _ (hk'.trans (hopen'.symm.trans hopen))
      exact .inr ⟨hfailed, k, rfl, (Function.update_of_ne hne _ _).trans hopen, hfresh⟩
  distinct := h.distinct
  openBound := by
    intro socket conn hopen
    obtain ⟨-, hnone⟩ | ⟨-, hopen⟩ := update_eq_some hopen
    · cases hnone
    · exact h.openBound socket conn hopen
  madeBound := h.madeBound

theorem step (h : SocketInv s) (hstep : Step config returns s l t) : SocketInv t := by
  cases hstep with
  | accept _ hsocket hclosed => exact h.accepted hsocket hclosed
  | add hphase => exact h.added hphase
  | receive _ _ hrecord => exact h.received hrecord
  | remove _ _ hrecord => exact h.left hrecord
  | acceptFails =>
    refine ⟨h.registry, h.record, fun socket conn haccepting => ?_, h.distinct, h.openBound, h.madeBound⟩
    obtain ⟨rfl, rfl⟩ := Accepting.adds.inj haccepting
    exact .inl ⟨rfl, rfl⟩
  | handOver | spawn =>
    exact ⟨h.registry, h.record, nofun, h.distinct, h.openBound, h.madeBound⟩
  | hangUp | reply | broadcast =>
    exact ⟨h.registry, h.record, h.pending, h.distinct, h.openBound, h.madeBound⟩

end SocketInv

theorem socketInv (hrun : Run (Step config returns) System.init ls s) : SocketInv s :=
  hrun.invariant .init fun _ _ _ => SocketInv.step

end Sockets

end NetworkServers.Chat
