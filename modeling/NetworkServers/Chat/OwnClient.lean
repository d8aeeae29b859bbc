import NetworkServers.Chat.Sockets

/-!
# What `remove_chat_client` Removes

`remove_chat_client` frees the first record with the socket number of its argument. For a
socket that `accept` has opened this is the argument itself. `_start_chat_server` does not
check the result of `accept`, though, and all clients of failed calls have the socket -1: a
handler of one of them frees the record that stands first in the array.
-/

namespace NetworkServers.Chat

open NetworkServers.Runs

/-! ## The property -/

/-- Each call of `remove_chat_client` has freed its own record, the registry holds exactly the
records without a call, and no handler that goes on has a record that was freed. -/
structure RemovesOwn (s : System) : Prop where
  freed : ∀ pair ∈ s.removed, pair.2 = some pair.1
  registered : ∀ r, r ∈ s.server.clients ↔
    r < s.server.clientIncrement ∧ ∀ freed, (r, freed) ∉ s.removed
  inUse : ∀ h ∈ s.threads, h.phase ≠ .exited → (s.server.heap h.client).isSome

/-- A client whose `accept` has failed is removed only when no other such client stands in
front of it in the array. -/
def FirstFailed (s : System) : Label → Prop
  | .remove i => ∀ h c, s.threads[i]? = some h → s.server.heap h.client = some c → c.socket = -1 →
      ∀ (j k : ℕ) (r : ClientRef), s.server.clients[k]? = some h.client → j < k →
        s.server.clients[j]? = some r → ¬ s.server.hasSocket (-1) r
  | _ => True

section Removal

variable {config : ChatServerConfig} {returns : ChatServer → ClientRef → Option ClientRef}
  {s t : System} {l : Label} {ls : List Label}

/-- **The record that is found** is the argument, under the condition. -/
theorem FirstFailed.find_own {i : ℕ} (hguard : FirstFailed s (.remove i)) (h : SocketInv s)
    {x : Handler} {c : ChatClient} (hthread : s.threads[i]? = some x)
    (hrecord : s.server.heap x.client = some c) :
    ∃ k, s.server.find c.socket = some (k, x.client) := by
  rcases ne_or_eq c.socket (-1) with hopen | hfailed
  · exact h.find_own hrecord hopen
  -- the search stops at the argument at the latest, and the condition excludes all before it
  obtain ⟨k, hk⟩ := List.getElem?_of_mem (h.registry.mem_of_record hrecord)
  obtain ⟨j, r, hfind⟩ :=
    find_isSome (h.registry.mem_of_record hrecord) ((hasSocket_iff hrecord).mpr rfl)
  obtain ⟨hj, hsocket, hfirst⟩ := find_eq_some hfind
  have hle : j ≤ k := by
    by_contra hlt
    exact hfirst k _ (Nat.lt_of_not_le hlt) hk ((hasSocket_iff hrecord).mpr rfl)
  rcases hle.lt_or_eq with hlt | rfl
  · rw [hfailed] at hsocket
    exact absurd hsocket (hguard x c hthread hrecord hfailed j k r hk hlt hj)
  · obtain rfl := Option.some.inj (hj.symm.trans hk)
    exact ⟨j, hfind⟩

/-- The condition holds where the argument is found. -/
theorem firstFailed_of_find {i k : ℕ} {x : Handler} {c : ChatClient}
    (hregistry : s.server.WellFormed) (hthread : s.threads[i]? = some x)
    (hrecord : s.server.heap x.client = some c) (hfind : s.server.find c.socket = some (k, x.client)) :
    FirstFailed s (.remove i) := by
  intro x' c' hthread' hrecord' hfailed j k' r hk' hlt hj
  obtain rfl := Option.some.inj (hthread.symm.trans hthread')
  obtain rfl := Option.some.inj (hrecord.symm.trans hrecord')
  obtain ⟨hk, -, hfirst⟩ := find_eq_some hfind
  obtain ⟨hplace, -⟩ := List.getElem?_eq_some_iff.mp hk
  obtain rfl := (List.getElem?_inj hplace hregistry.nodup).mp (hk.trans hk'.symm)
  rw [← hfailed]
  exact hfirst j r hlt hj

/-! ## The invariant -/

/-- What holds as long as the condition is met. -/
structure Removals (s : System) : Prop where
  sockets : SocketInv s
  handed : HandedOver s
  freed : ∀ pair ∈ s.removed, pair.2 = some pair.1
  exited : ∀ pair ∈ s.removed, ∃ (j : ℕ) (h : Handler),
    s.threads[j]? = some h ∧ h.client = pair.1 ∧ h.phase = .exited
  registered : ∀ r, r ∈ s.server.clients ↔
    r < s.server.clientIncrement ∧ ∀ freed, (r, freed) ∉ s.removed

namespace Removals

theorem init : Removals System.init where
  sockets := .init
  handed := .init
  freed := fun _ h => absurd h List.not_mem_nil
  exited := fun _ h => absurd h List.not_mem_nil
  registered := fun r => ⟨fun hr => absurd hr List.not_mem_nil, fun hr => absurd hr.1 (Nat.not_lt_zero r)⟩

/-- What a thread serves has been made. -/
theorem client_lt (h : Removals s) {j : ℕ} {x : Handler} (hj : s.threads[j]? = some x) :
    x.client < s.server.clientIncrement := by
  have hmem : x.client ∈ s.threads.map Handler.client ++ s.accepting.hands :=
    List.mem_append_left _ (List.mem_map_of_mem (List.mem_of_getElem? hj))
  rw [h.handed] at hmem
  exact List.mem_range.mp hmem

/-- A handler that goes on has not called `remove_chat_client`. -/
theorem not_removed (h : Removals s) {j : ℕ} {x : Handler} (hj : s.threads[j]? = some x)
    (hx : x.phase ≠ .exited) (freed : Option ClientRef) : (x.client, freed) ∉ s.removed := by
  intro hmem
  obtain ⟨k, x', hk, hclient, hexited⟩ := h.exited _ hmem
  -- the record has one thread, which would have exited
  obtain rfl := h.handed.thread_unique hj hk hclient
  obtain rfl := Option.some.inj (hj.symm.trans hk)
  exact hx hexited

/-- Its record is still registered. -/
theorem registered_of_thread (h : Removals s) {j : ℕ} {x : Handler} (hj : s.threads[j]? = some x)
    (hx : x.phase ≠ .exited) : x.client ∈ s.server.clients :=
  (h.registered _).mpr ⟨h.client_lt hj, h.not_removed hj hx⟩

/-- **The property** follows from the invariant. -/
theorem removesOwn (h : Removals s) : RemovesOwn s where
  freed := h.freed
  registered := h.registered
  inUse := by
    intro x hx hphase
    obtain ⟨j, hj⟩ := List.getElem?_of_mem hx
    exact (h.sockets.registry.live _).mpr (h.registered_of_thread hj hphase)

/-- Threads that have exited stay when another one moves. -/
theorem exited_set (h : Removals s) {i : ℕ} {x : Handler} (hthread : s.threads[i]? = some x)
    (hx : x.phase ≠ .exited) (x' : Handler) : ∀ pair ∈ s.removed, ∃ (j : ℕ) (h : Handler),
      (s.threads.set i x')[j]? = some h ∧ h.client = pair.1 ∧ h.phase = .exited := by
  intro pair hmem
  obtain ⟨j, y, hj, hclient, hexited⟩ := h.exited pair hmem
  -- a thread that has exited does not move
  have hne : i ≠ j := by
    rintro rfl
    obtain rfl := Option.some.inj (hthread.symm.trans hj)
    exact hx hexited
  exact ⟨j, y, (List.getElem?_set_ne hne).trans hj, hclient, hexited⟩

/-- The record of a handler is freed and dropped. -/
theorem left (h : Removals s) {i : ℕ} {x : Handler} {c : ChatClient}
    (hguard : FirstFailed s (.remove i)) (hthread : s.threads[i]? = some x)
    (hphase : x.phase = .leaves) (hrecord : s.server.heap x.client = some c)
    (hhanded : HandedOver (s.left i x c)) : Removals (s.left i x c) := by
  have hx : x.phase ≠ .exited := by
    rw [hphase]
    exact nofun
  -- what the search finds is the record itself
  obtain ⟨k, hfind⟩ := hguard.find_own h.sockets hthread hrecord
  have hremoved : (s.left i x c).removed = s.removed ++ [(x.client, some x.client)] := by
    show s.removed ++ [(x.client, (s.server.find c.socket).map Prod.snd)] = _
    rw [hfind, Option.map_some]
  refine ⟨h.sockets.left hrecord, hhanded, fun pair hmem => ?_, fun pair hmem => ?_, fun r => ?_⟩
  · rw [hremoved] at hmem
    rcases List.mem_append.mp hmem with hmem | hmem
    · exact h.freed pair hmem
    · rw [List.mem_singleton.mp hmem]
  · rw [hremoved] at hmem
    rcases List.mem_append.mp hmem with hmem | hmem
    · exact h.exited_set hthread hx _ pair hmem
    · rw [List.mem_singleton.mp hmem]
      obtain ⟨hlt, -⟩ := List.getElem?_eq_some_iff.mp hthread
      exact ⟨i, _, List.getElem?_set_self hlt, rfl, rfl⟩
  · show r ∈ (s.server.removeChatClient c.socket).clients ↔
      r < (s.server.removeChatClient c.socket).clientIncrement ∧ _
    rw [hremoved, clientIncrement_removeChatClient, h.sockets.registry.mem_remove_iff hfind,
      h.registered r]
    constructor
    · rintro ⟨⟨hlt, hbefore⟩, hne⟩
      refine ⟨hlt, fun freed hmem => ?_⟩
      rcases List.mem_append.mp hmem with hmem | hmem
      · exact hbefore freed hmem
      · exact hne (Prod.mk.inj (List.mem_singleton.mp hmem)).1
    · rintro ⟨hlt, hafter⟩
      refine ⟨⟨hlt, fun freed hmem => hafter freed (List.mem_append_left _ hmem)⟩, ?_⟩
      rintro rfl
      exact hafter _ (List.mem_append_right _ List.mem_cons_self)

/-- A new record is registered. -/
theorem registered_add (h : Removals s) {socket : ℤ} (r : ClientRef) :
    r ∈ (s.server.addChatClient socket).clients ↔
      r < (s.server.addChatClient socket).clientIncrement ∧ ∀ freed, (r, freed) ∉ s.removed := by
  show r ∈ s.server.clients ++ [s.server.clientIncrement] ↔ r < s.server.clientIncrement + 1 ∧ _
  rw [List.mem_append, List.mem_singleton, h.registered r, Nat.lt_succ_iff_lt_or_eq]
  constructor
  · rintro (⟨hlt, hr⟩ | rfl)
    · exact ⟨.inl hlt, hr⟩
    · -- only what a thread has got has been removed
      refine ⟨.inr rfl, fun freed hmem => ?_⟩
      obtain ⟨j, x, hj, hclient, -⟩ := h.exited _ hmem
      exact (h.client_lt hj).ne hclient
  · rintro ⟨hlt | rfl, hr⟩
    · exact .inl ⟨hlt, hr⟩
    · exact .inr rfl

theorem step (h : Removals s) (hstep : Guarded FirstFailed (Step config ownRecord) s l t) :
    Removals t := by
  obtain ⟨hguard, hstep⟩ := hstep
  have hhanded := h.handed.step (fun _ _ _ _ _ => rfl) hstep
  have hsockets := h.sockets.step hstep
  cases hstep with
  | accept | acceptFails | handOver =>
    exact ⟨hsockets, hhanded, h.freed, h.exited, h.registered⟩
  | add => exact ⟨hsockets, hhanded, h.freed, h.exited, h.registered_add⟩
  | spawn =>
    refine ⟨hsockets, hhanded, h.freed, fun pair hmem => ?_, h.registered⟩
    obtain ⟨j, y, hj, hy⟩ := h.exited pair hmem
    obtain ⟨hlt, -⟩ := List.getElem?_eq_some_iff.mp hj
    exact ⟨j, y, (List.getElem?_append_left hlt).trans hj, hy⟩
  | receive hthread hphase | hangUp hthread hphase | reply hthread hphase
  | broadcast hthread hphase =>
    exact ⟨hsockets, hhanded, h.freed, h.exited_set hthread (hphase ▸ nofun) _, h.registered⟩
  | remove hthread hphase hrecord => exact h.left hguard hthread hphase hrecord hhanded

end Removals

theorem removals (hrun : Run (Guarded FirstFailed (Step config ownRecord)) System.init ls s) :
    Removals s :=
  hrun.invariant .init fun _ _ _ => Removals.step

/-- What has been removed stays so. -/
theorem Step.removed_subset (hstep : Step config returns s l t) : s.removed ⊆ t.removed := by
  cases hstep with
  | remove => exact List.subset_append_left _ _
  | _ => exact List.Subset.refl _

/-- A run in which every call has freed its own record meets the condition. -/
theorem firstFailed_of_freed (hrun : Run (Step config returns) System.init ls s)
    (h : ∀ pair ∈ s.removed, pair.2 = some pair.1) :
    Run (Guarded FirstFailed (Step config returns)) System.init ls s := by
  apply Run.guarded_of_final (fun s => ∀ pair ∈ s.removed, pair.2 = some pair.1) _ hrun h
  intro ls s l t hrun hstep h
  refine ⟨fun pair hmem => h pair (hstep.removed_subset hmem), ?_⟩
  cases l with
  | remove i =>
    cases hstep with
    | @remove i x c hthread hphase hrecord =>
      -- the call has freed what the search has found, and that is its own record
      have hown := h (x.client, _) (List.mem_append_right _ List.mem_cons_self)
      obtain ⟨⟨k, r⟩, hfind, hr⟩ := Option.map_eq_some_iff.mp hown
      obtain rfl : r = x.client := hr
      exact firstFailed_of_find (socketInv hrun).registry hthread hrecord hfind
  | _ => trivial

end Removal

/-! ## The result -/

/-- **`remove_chat_client` removes its own client**, and no handler goes on with a freed
record, in exactly the runs in which the clients of failed `accept` calls leave in the
order in which they stand in the array. -/
theorem removesOwn_iff_firstFailed (config : ChatServerConfig) {ls : List Label} {s : System}
    (hrun : Run (Step config ownRecord) System.init ls s) :
    RemovesOwn s ↔ Run (Guarded FirstFailed (Step config ownRecord)) System.init ls s :=
  ⟨fun h => firstFailed_of_freed hrun h.freed, fun hguarded => (removals hguarded).removesOwn⟩

/-- Two calls of `accept` fail, and `recv` fails for the client of one of them. -/
def failedTwice (thread : ℕ) : List Label :=
  [.acceptFails, .add, .handOver, .spawn, .acceptFails, .add, .handOver, .spawn, .hangUp thread,
    .remove thread]

/-- The client that stands first leaves. -/
theorem removesOwn_iff_firstFailed_zero :
    ∃ s, s.removed = [(0, some 0)] ∧
      Run (Guarded FirstFailed (Step smallConfig ownRecord)) System.init (failedTwice 0) s ∧
      RemovesOwn s := by
  have heval : (System.run smallConfig ownRecord (failedTwice 0)).map System.removed =
      some [(0, some 0)] := by decide
  obtain ⟨s, hrun, hremoved⟩ := run_of_labels heval
  have hguarded := firstFailed_of_freed hrun (by rw [hremoved]; decide)
  exact ⟨s, hremoved, hguarded, (removesOwn_iff_firstFailed smallConfig hrun).mpr hguarded⟩

/-- The other client leaves, and the record of the first one is freed. -/
theorem not_removesOwn_one :
    ¬∀ (config : ChatServerConfig) (ls : List Label) (s : System),
      Run (Step config ownRecord) System.init ls s → RemovesOwn s := by
  intro h
  have heval : (System.run smallConfig ownRecord (failedTwice 1)).map System.removed =
      some [(1, some 0)] := by decide
  obtain ⟨s, hrun, hremoved⟩ := run_of_labels heval
  have hmem : (1, some 0) ∈ s.removed := by
    rw [hremoved]
    exact List.mem_cons_self
  cases (h _ _ _ hrun).freed _ hmem

end NetworkServers.Chat
