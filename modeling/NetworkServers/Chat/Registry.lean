import NetworkServers.Chat.Server

/-!
# The Registry of the Chat Server

What the locked sections of `add_chat_client` and `remove_chat_client` do to the registry,
and the invariant that they keep: the array holds exactly the live records, each of them
once, and they are numbered by their creation. The threads get the records in the order of
their creation, as far as `add_chat_client` returns its own ones.
-/

namespace NetworkServers.Chat

open NetworkServers.SwapRemove

/-- What an updated map has for a key is the new value, or what it had before. -/
theorem update_eq_some {α β : Type} [DecidableEq α] {f : α → Option β} {a b : α} {v : Option β}
    {x : β} (h : Function.update f a v b = some x) : b = a ∧ v = some x ∨ b ≠ a ∧ f b = some x := by
  rcases eq_or_ne b a with rfl | hne
  · rw [Function.update_self] at h
    exact .inl ⟨rfl, h⟩
  · rw [Function.update_of_ne hne] at h
    exact .inr ⟨hne, h⟩

/-! ## Removal -/

section Find

variable {server : ChatServer} {socket : ℤ} {i : ℕ} {r : ClientRef} {c : ChatClient}

theorem hasSocket_iff (hrecord : server.heap r = some c) :
    server.hasSocket socket r ↔ c.socket = socket := by
  rw [ChatServer.hasSocket, hrecord, Option.map_some, decide_eq_true_iff, Option.some.injEq]

/-- What the loop of `remove_chat_client` finds is the first record with the socket. -/
theorem find_eq_some (h : server.find socket = some (i, r)) :
    server.clients[i]? = some r ∧ server.hasSocket socket r ∧
      ∀ j r', j < i → server.clients[j]? = some r' → ¬ server.hasSocket socket r' := by
  obtain ⟨j, hj, h⟩ := Option.bind_eq_some_iff.mp h
  obtain ⟨r', hr, h⟩ := Option.bind_eq_some_iff.mp h
  obtain ⟨rfl, rfl⟩ := Prod.mk.inj (Option.some.inj h)
  obtain ⟨hlt, hsocket, hfirst⟩ := List.findIdx?_eq_some_iff_getElem.mp hj
  obtain ⟨_, rfl⟩ := List.getElem?_eq_some_iff.mp hr
  refine ⟨hr, hsocket, fun k r' hk hr' => ?_⟩
  obtain ⟨_, rfl⟩ := List.getElem?_eq_some_iff.mp hr'
  exact hfirst k hk

/-- The loop finds a record if one has the socket. -/
theorem find_isSome (hr : r ∈ server.clients) (hsocket : server.hasSocket socket r) :
    ∃ i r', server.find socket = some (i, r') := by
  have hfound : (server.clients.findIdx? (server.hasSocket socket)).isSome := by
    rw [List.findIdx?_isSome]
    exact List.any_eq_true.mpr ⟨r, hr, hsocket⟩
  obtain ⟨i, hi⟩ := Option.isSome_iff_exists.mp hfound
  obtain ⟨hlt, -⟩ := List.findIdx?_eq_some_iff_getElem.mp hi
  refine ⟨i, server.clients[i], ?_⟩
  rw [ChatServer.find, hi, Option.bind_eq_bind, Option.bind_some, List.getElem?_eq_getElem hlt]
  rfl

/-- The two cases of `remove_chat_client`. -/
theorem removeChatClient_cases (server : ChatServer) (socket : ℤ) :
    (server.find socket = none ∧ server.removeChatClient socket = server) ∨
    ∃ i r, server.find socket = some (i, r) ∧ server.clients[i]? = some r ∧
      server.removeChatClient socket =
        { server with clients := swapRemove server.clients i
                      heap := Function.update server.heap r none } := by
  unfold ChatServer.removeChatClient
  cases hfind : server.find socket with
  | none => exact .inl ⟨rfl, rfl⟩
  | some found => exact .inr ⟨found.1, found.2, rfl, (find_eq_some hfind).1, rfl⟩

@[simp] theorem clientIncrement_removeChatClient :
    (server.removeChatClient socket).clientIncrement = server.clientIncrement := by
  rcases removeChatClient_cases server socket with ⟨-, heq⟩ | ⟨_, _, -, -, heq⟩ <;> rw [heq]

end Find

/-! ## The invariant -/

/-- The array holds exactly the live records, each of them once. -/
structure ChatServer.WellFormed (server : ChatServer) : Prop where
  nodup : server.clients.Nodup
  live : ∀ r, (server.heap r).isSome ↔ r ∈ server.clients
  made : ∀ r ∈ server.clients, r < server.clientIncrement

namespace ChatServer.WellFormed

variable {server : ChatServer} {socket : ℤ} {i : ℕ} {r r' : ClientRef} {c : ChatClient}

theorem init : ChatServer.init.WellFormed where
  nodup := List.nodup_nil
  live := fun _ => ⟨nofun, fun hr => absurd hr List.not_mem_nil⟩
  made := fun _ hr => absurd hr List.not_mem_nil

/-- The number of the next record is in use nowhere. -/
theorem fresh (h : server.WellFormed) : server.clientIncrement ∉ server.clients :=
  fun hr => Nat.lt_irrefl _ (h.made _ hr)

/-- A registered record can be read. -/
theorem record (h : server.WellFormed) (hr : r ∈ server.clients) : ∃ c, server.heap r = some c :=
  Option.isSome_iff_exists.mp ((h.live r).mpr hr)

theorem mem_of_record (h : server.WellFormed) (hrecord : server.heap r = some c) :
    r ∈ server.clients := (h.live r).mp (by rw [hrecord]; rfl)

theorem nodup_add (h : server.WellFormed) : (server.clients ++ [server.clientIncrement]).Nodup := by
  rw [← List.concat_eq_append]
  exact h.nodup.concat h.fresh

/-- `add_chat_client` keeps the invariant. -/
theorem add (h : server.WellFormed) : (server.addChatClient socket).WellFormed where
  nodup := h.nodup_add
  live := by
    intro r
    show (Function.update server.heap server.clientIncrement _ r).isSome ↔ r ∈ server.clients ++ _
    rw [List.mem_append, List.mem_singleton]
    rcases eq_or_ne r server.clientIncrement with rfl | hne
    · rw [Function.update_self]
      exact ⟨fun _ => .inr rfl, fun _ => rfl⟩
    · rw [Function.update_of_ne hne, h.live r]
      exact ⟨.inl, fun hr => hr.resolve_right hne⟩
  made := by
    intro r hr
    rcases List.mem_append.mp hr with hr | hr
    · exact Nat.lt_succ_of_lt (h.made r hr)
    · exact Nat.lt_succ_of_le (List.mem_singleton.mp hr).le

/-- Writing to a record that can be read keeps the invariant. -/
theorem write (h : server.WellFormed) (hrecord : server.heap r = some c) {c' : ChatClient} :
    (server.write r c').WellFormed where
  nodup := h.nodup
  live := by
    intro r'
    rw [← show _ ↔ r' ∈ (server.write r c').clients from h.live r']
    show (Function.update server.heap r _ r').isSome ↔ _
    rcases eq_or_ne r' r with rfl | hne
    · rw [Function.update_self, hrecord]
      exact ⟨fun _ => rfl, fun _ => rfl⟩
    · rw [Function.update_of_ne hne]
  made := h.made

/-- What `remove_chat_client` finds leaves the registry. -/
theorem mem_remove_iff (h : server.WellFormed) (hfind : server.find socket = some (i, r)) :
    r' ∈ (server.removeChatClient socket).clients ↔ r' ∈ server.clients ∧ r' ≠ r := by
  rw [ChatServer.removeChatClient, hfind]
  exact mem_swapRemove_iff h.nodup (find_eq_some hfind).1

/-- `remove_chat_client` keeps the invariant. -/
theorem remove (h : server.WellFormed) : (server.removeChatClient socket).WellFormed := by
  rcases removeChatClient_cases server socket with ⟨-, heq⟩ | ⟨i, r, hfind, hi, heq⟩
  · rwa [heq]
  refine ⟨?_, fun r' => ?_, fun r' hr' => ?_⟩
  · rw [heq]
    exact nodup_swapRemove h.nodup hi
  · rw [h.mem_remove_iff hfind, heq]
    show (Function.update server.heap r none r').isSome ↔ _
    rcases eq_or_ne r' r with rfl | hne
    · rw [Function.update_self]
      exact ⟨nofun, fun hr => absurd rfl hr.2⟩
    · rw [Function.update_of_ne hne, h.live r']
      exact ⟨fun hr => ⟨hr, hne⟩, fun hr => hr.1⟩
  · rw [clientIncrement_removeChatClient]
    exact h.made r' ((h.mem_remove_iff hfind).mp hr').1

end ChatServer.WellFormed

/-! ## Threads -/

/-- The record that the accept thread is about to hand over. -/
def Accepting.hands : Accepting → List ClientRef
  | .returns created _ _ => [created]
  | .spawns (some client) => [client]
  | _ => []

section Threads

variable {threads : List Handler} {i : ℕ} {h : Handler}

/-- A handler keeps its argument. -/
theorem map_client_set {h' : Handler} (hi : threads[i]? = some h) (hclient : h'.client = h.client) :
    (threads.set i h').map Handler.client = threads.map Handler.client := by
  obtain ⟨hlt, rfl⟩ := List.getElem?_eq_some_iff.mp hi
  have hplace : i < (threads.map Handler.client).length := by rwa [List.length_map]
  rw [List.map_set, hclient, ← List.getElem_map Handler.client (h := hplace)]
  exact List.set_getElem_self hplace

/-- What holds of the other threads and of the one that moves holds of all. -/
theorem forall_thread_set {P : ℕ → Handler → Prop} {h' : Handler}
    (hother : ∀ j x, j ≠ i → threads[j]? = some x → P j x) (hmoved : P i h') :
    ∀ j x, (threads.set i h')[j]? = some x → P j x := by
  intro j x hj
  rw [List.getElem?_set] at hj
  split at hj
  · rename_i heq
    obtain ⟨-, hx⟩ := Option.ite_none_right_eq_some.mp hj
    rw [← heq, ← Option.some.inj hx]
    exact hmoved
  · rename_i hne
    exact hother j x (Ne.symm hne) hj

/-- What holds of all threads and of a new one. -/
theorem forall_thread_concat {P : ℕ → Handler → Prop} {h' : Handler}
    (hold : ∀ j x, threads[j]? = some x → P j x) (hnew : P threads.length h') :
    ∀ j x, (threads ++ [h'])[j]? = some x → P j x := by
  intro j x hj
  rcases Nat.lt_or_ge j threads.length with hlt | hge
  · exact hold j x ((List.getElem?_append_left hlt).symm.trans hj)
  · rw [List.getElem?_append_right hge, List.getElem?_singleton] at hj
    obtain ⟨hzero, hx⟩ := Option.ite_none_right_eq_some.mp hj
    have hlast : j = threads.length := Nat.le_antisymm (Nat.le_of_sub_eq_zero hzero) hge
    rw [hlast, ← Option.some.inj hx]
    exact hnew

theorem Handler.after_client (message : List UInt8) (reaction : Reaction) :
    (h.after message reaction).client = h.client := by
  cases reaction <;> rfl

theorem Accepting.hands_after (accepting : Accepting) (found : Option (ℕ × ClientRef)) :
    (accepting.after found).hands = accepting.hands := by
  unfold Accepting.after
  split <;> rfl

end Threads

section Steps

variable {config : ChatServerConfig} {returns : ChatServer → ClientRef → Option ClientRef}
  {s t : System} {l : Label}

/-- The registry is well formed after every step, whatever `add_chat_client` returns. -/
theorem Step.wellFormed (hstep : Step config returns s l t) (h : s.server.WellFormed) :
    t.server.WellFormed := by
  cases hstep with
  | add => exact h.add
  | receive _ _ hrecord => exact h.write hrecord
  | remove => exact h.remove
  | accept | acceptFails | handOver | spawn | hangUp | reply | broadcast => exact h

/-- The threads have got the records in the order in which they were made. -/
def HandedOver (s : System) : Prop :=
  s.threads.map Handler.client ++ s.accepting.hands = List.range s.server.clientIncrement

theorem HandedOver.init : HandedOver System.init := rfl

theorem HandedOver.nodup (h : HandedOver s) :
    (s.threads.map Handler.client ++ s.accepting.hands).Nodup := by
  rw [h]
  exact List.nodup_range

/-- No two threads have got the same record. -/
theorem HandedOver.thread_unique (h : HandedOver s) {i j : ℕ} {x x' : Handler}
    (hi : s.threads[i]? = some x) (hj : s.threads[j]? = some x') (hclient : x'.client = x.client) :
    j = i := by
  have hplace : j < (s.threads.map Handler.client).length := by
    rw [List.length_map]
    exact (List.getElem?_eq_some_iff.mp hj).1
  apply (List.getElem?_inj hplace (List.Nodup.of_append_left h.nodup)).mp
  rw [List.getElem?_map, List.getElem?_map, hi, hj, Option.map_some, Option.map_some, hclient]

theorem HandedOver.set (h : HandedOver s) {i : ℕ} {x x' : Handler} (hthread : s.threads[i]? = some x)
    (hclient : x'.client = x.client) :
    (s.threads.set i x').map Handler.client ++ s.accepting.hands =
      List.range s.server.clientIncrement := by
  rw [map_client_set hthread hclient]
  exact h

/-- A step keeps the order if `add_chat_client` returns its own record. -/
theorem HandedOver.step (h : HandedOver s)
    (hown : ∀ created count positions, l = .handOver →
      s.accepting = .returns created count positions → returns s.server created = some created)
    (hstep : Step config returns s l t) : HandedOver t := by
  cases hstep with
  | accept hphase | acceptFails hphase =>
    rw [HandedOver, hphase] at h
    exact h
  | add hphase =>
    -- the new record is the next one in order, in the hands of the accept thread
    rw [HandedOver, hphase, show Accepting.hands _ = [] from rfl, List.append_nil] at h
    show s.threads.map Handler.client ++ [s.server.clientIncrement] = List.range (_ + 1)
    rw [List.range_succ, h]
  | handOver hphase =>
    rw [HandedOver, hphase] at h
    rw [hown _ _ _ rfl hphase]
    exact h
  | spawn hphase =>
    -- it goes from there to the new thread
    rw [HandedOver, hphase] at h
    show (s.threads ++ [_]).map Handler.client ++ [] = _
    rw [List.append_nil, List.map_append]
    exact h
  | receive hthread => exact h.set hthread (Handler.after_client _ _)
  | hangUp hthread | reply hthread | broadcast hthread => exact h.set hthread rfl
  | remove hthread =>
    show _ ++ (s.accepting.after _).hands = List.range (s.server.removeChatClient _).clientIncrement
    rw [Accepting.hands_after, clientIncrement_removeChatClient]
    exact h.set hthread rfl

end Steps

end NetworkServers.Chat
