import NetworkServers.Chat.Registry

/-!
# What `add_chat_client` Returns

`add_chat_client` reads the last element of the array after it has left its section. A
removal in between swaps the new record out of the last place, or brings it back. The
positions of the removals tell which record is returned: the new one stands some places in
front of the end, and it is returned exactly if it stands at the end again.
-/

namespace NetworkServers.Chat

open NetworkServers.Runs NetworkServers.SwapRemove

/-! ## The property -/

/-- `add_chat_client` has always returned the record that it has made. -/
def HandsOwn (s : System) : Prop := ∀ pair ∈ s.returned, pair.2 = some pair.1

/-- Each live record is served by exactly one handler thread, apart from one that the accept
thread is about to hand over. That thread has not exited, unless its `remove_chat_client`
has freed another record. -/
def ServedOnce (s : System) : Prop :=
  ∀ r, (s.server.heap r).isSome → r ∉ s.accepting.hands →
    ∃ (i : ℕ) (h : Handler), s.threads[i]? = some h ∧ h.client = r ∧
      (∀ (j : ℕ) (h' : Handler), s.threads[j]? = some h' → h'.client = r → j = i) ∧
      (h.phase = .exited → ∃ freed, (r, freed) ∈ s.removed ∧ freed ≠ some r)

/-- Where `add_chat_client` returns, the new record stands at the end of the array again
after the removals since its section. -/
def NoGap (s : System) : Label → Prop
  | .handOver => ∀ created count positions, s.accepting = .returns created count positions →
      (track count positions).2 = some 0
  | _ => True

section Window

variable {config : ChatServerConfig} {returns : ChatServer → ClientRef → Option ClientRef}
  {s t : System} {l : Label} {ls : List Label}

/-! ## The window -/

/-- The new record of an `add_chat_client` that is about to return is followed through the
removals. -/
structure WindowInv (s : System) : Prop where
  registry : s.server.WellFormed
  window : ∀ created count positions, s.accepting = .returns created count positions →
    Tracked s.server.clients created (track count positions)

/-- After a removal the positions say where the new record stands. -/
theorem WindowInv.remove (h : WindowInv s) {socket : ℤ} {created count : ℕ} {positions : List ℕ}
    (hreturns : s.accepting.after (s.server.find socket) = .returns created count positions) :
    Tracked (s.server.removeChatClient socket).clients created (track count positions) := by
  rcases removeChatClient_cases s.server socket with ⟨hfind, heq⟩ | ⟨i, r, hfind, hi, heq⟩
  · -- nothing is found, and the window stays as it is
    rw [heq]
    rw [hfind] at hreturns
    apply h.window
    rw [← hreturns]
    cases s.accepting <;> rfl
  · -- one more position, which matters only to an `add_chat_client` that is about to return
    rw [heq]
    rw [hfind] at hreturns
    cases haccepting : s.accepting with
    | returns created' count' positions' =>
      rw [haccepting] at hreturns
      obtain ⟨rfl, rfl, rfl⟩ := Accepting.returns.inj hreturns
      exact (h.window _ _ _ haccepting).remove hi
    | _ =>
      rw [haccepting] at hreturns
      cases hreturns

theorem WindowInv.step (h : WindowInv s) (hstep : Step config returns s l t) : WindowInv t := by
  refine ⟨hstep.wellFormed h.registry, ?_⟩
  cases hstep with
  | accept | acceptFails | handOver | spawn => exact fun _ _ _ hreturns => nomatch hreturns
  | receive | hangUp | reply | broadcast => exact h.window
  | add =>
    intro created count positions hreturns
    obtain ⟨rfl, rfl, rfl⟩ := Accepting.returns.inj hreturns
    exact tracked_concat h.registry.nodup_add
  | remove => exact fun _ _ _ hreturns => h.remove hreturns

theorem windowInv (hrun : Run (Step config returns) System.init ls s) : WindowInv s :=
  hrun.invariant ⟨.init, by rintro _ _ _ ⟨⟩⟩ fun _ _ _ => WindowInv.step

/-- **What is returned**: the new record exactly if it stands at the end again. -/
theorem WindowInv.lastClient_eq_iff (h : WindowInv s) {created count : ℕ} {positions : List ℕ}
    (hreturns : s.accepting = .returns created count positions) :
    s.server.lastClient created = some created ↔ (track count positions).2 = some 0 :=
  (h.window _ _ _ hreturns).getLast?_eq_iff

/-! ## Threads that have left -/

/-- A record that has been freed does not come back, and a handler that has exited has
called `remove_chat_client` with its record. -/
structure ExitInv (s : System) : Prop where
  registry : s.server.WellFormed
  freed : ∀ client r, (client, some r) ∈ s.removed →
    r ∉ s.server.clients ∧ r < s.server.clientIncrement
  exited : ∀ h ∈ s.threads, h.phase = .exited → ∃ freed, (h.client, freed) ∈ s.removed

theorem ExitInv.init : ExitInv System.init where
  registry := .init
  freed := fun _ _ h => absurd h List.not_mem_nil
  exited := fun _ h => absurd h List.not_mem_nil

/-- A handler that goes on has not exited. -/
theorem ExitInv.exited_set (h : ExitInv s) {i : ℕ} {x : Handler} (hx : x.phase ≠ .exited) :
    ∀ h ∈ s.threads.set i x, h.phase = .exited → ∃ freed, (h.client, freed) ∈ s.removed := by
  intro h' hmem hexited
  rcases List.mem_or_eq_of_mem_set hmem with hmem | rfl
  · exact h.exited h' hmem hexited
  · exact absurd hexited hx

/-- What `remove_chat_client` frees leaves the registry, and nothing enters it. -/
theorem ExitInv.freed_remove (h : ExitInv s) {client : ClientRef} {socket : ℤ} (client' r : ClientRef)
    (hmem : (client', some r) ∈
      s.removed ++ [(client, (s.server.find socket).map Prod.snd)]) :
    r ∉ (s.server.removeChatClient socket).clients ∧
      r < (s.server.removeChatClient socket).clientIncrement := by
  rw [clientIncrement_removeChatClient]
  rcases removeChatClient_cases s.server socket with ⟨hfind, heq⟩ | ⟨i, r', hfind, hi, -⟩
  · rw [hfind] at hmem
    rw [heq]
    rcases List.mem_append.mp hmem with hmem | hmem
    · exact h.freed _ _ hmem
    · cases List.mem_singleton.mp hmem
  · rw [hfind] at hmem
    rw [h.registry.mem_remove_iff hfind]
    rcases List.mem_append.mp hmem with hmem | hmem
    · obtain ⟨hgone, hlt⟩ := h.freed _ _ hmem
      exact ⟨fun hr => hgone hr.1, hlt⟩
    · obtain rfl : r = r' := Option.some.inj (Prod.mk.inj (List.mem_singleton.mp hmem)).2
      exact ⟨fun hr => hr.2 rfl, h.registry.made _ (List.mem_of_getElem? hi)⟩

theorem ExitInv.step (h : ExitInv s) (hstep : Step config returns s l t) : ExitInv t := by
  refine ⟨hstep.wellFormed h.registry, ?_, ?_⟩
  · cases hstep with
    | add =>
      intro client r hmem
      obtain ⟨hgone, hlt⟩ := h.freed client r hmem
      refine ⟨fun hr => ?_, Nat.lt_succ_of_lt hlt⟩
      -- the new record has a number that was never used before
      rcases List.mem_append.mp hr with hr | hr
      · exact hgone hr
      · exact hlt.ne (List.mem_singleton.mp hr)
    | remove => exact h.freed_remove
    | accept | acceptFails | handOver | spawn | receive | hangUp | reply | broadcast =>
      exact h.freed
  · cases hstep with
    | accept | acceptFails | add | handOver => exact h.exited
    | spawn =>
      intro h' hmem hexited
      rcases List.mem_append.mp hmem with hmem | hmem
      · exact h.exited h' hmem hexited
      · rw [List.mem_singleton.mp hmem] at hexited
        cases hexited
    | @receive i data x c =>
      apply h.exited_set
      cases react config c.name data <;> exact nofun
    | hangUp | reply | broadcast => exact h.exited_set nofun
    | @remove i x c =>
      intro h' hmem hexited
      rcases List.mem_or_eq_of_mem_set hmem with hmem | rfl
      · obtain ⟨freed, hfreed⟩ := h.exited h' hmem hexited
        exact ⟨freed, List.mem_append_left _ hfreed⟩
      · exact ⟨_, List.mem_append_right _ List.mem_cons_self⟩

theorem exitInv (hrun : Run (Step config returns) System.init ls s) : ExitInv s :=
  hrun.invariant .init fun _ _ _ => ExitInv.step

/-! ## Handing over -/

/-- In a run without a gap `add_chat_client` returns its own records, and the threads get them
in order. -/
theorem handedOver_of_noGap
    (hrun : Run (Guarded NoGap (Step config ChatServer.lastClient)) System.init ls s) :
    HandsOwn s ∧ HandedOver s := by
  induction hrun with
  | nil => exact ⟨fun _ h => absurd h List.not_mem_nil, .init⟩
  | @snoc ls s t l hrun hstep ih =>
    have hwindow := windowInv hrun.unguarded
    obtain ⟨hguard, hstep⟩ := hstep
    -- with distance zero the last element is the new record
    have hown : ∀ created count positions, l = .handOver →
        s.accepting = .returns created count positions →
        s.server.lastClient created = some created := by
      rintro created count positions rfl hphase
      exact (hwindow.lastClient_eq_iff hphase).mpr (hguard _ _ _ hphase)
    refine ⟨?_, ih.2.step hown hstep⟩
    cases hstep with
    | handOver hphase =>
      intro pair hmem
      rcases List.mem_append.mp hmem with hmem | hmem
      · exact ih.1 pair hmem
      · rw [List.mem_singleton.mp hmem]
        exact hown _ _ _ rfl hphase
    | _ => exact ih.1

/-- What has been returned stays returned. -/
theorem Step.returned_subset (hstep : Step config returns s l t) : s.returned ⊆ t.returned := by
  cases hstep with
  | handOver => exact List.subset_append_left _ _
  | _ => exact List.Subset.refl _

/-- A run in which `add_chat_client` has returned its own records is one without a gap. -/
theorem noGap_of_handsOwn (hrun : Run (Step config ChatServer.lastClient) System.init ls s)
    (h : HandsOwn s) : Run (Guarded NoGap (Step config ChatServer.lastClient)) System.init ls s := by
  apply Run.guarded_of_final HandsOwn _ hrun h
  intro ls s l t hrun hstep h
  refine ⟨fun pair hmem => h pair (hstep.returned_subset hmem), ?_⟩
  cases l with
  | handOver =>
    intro created count positions hphase
    apply ((windowInv hrun).lastClient_eq_iff hphase).mp
    cases hstep with
    | handOver hphase' =>
      obtain ⟨rfl, rfl, rfl⟩ := Accepting.returns.inj (hphase.symm.trans hphase')
      exact h (created, _) (List.mem_append_right _ List.mem_cons_self)
  | _ => trivial

/-- Threads that have got the records in order serve each of them once. -/
theorem HandedOver.servedOnce (h : HandedOver s) (hexit : ExitInv s) : ServedOnce s := by
  intro r hlive hhands
  -- a live record has been made, so a thread has got it, unless it is still to be handed over
  have hmem := (hexit.registry.live r).mp hlive
  have hall : r ∈ s.threads.map Handler.client ++ s.accepting.hands := by
    rw [h]
    exact List.mem_range.mpr (hexit.registry.made r hmem)
  obtain ⟨x, hx, rfl⟩ := List.mem_map.mp ((List.mem_append.mp hall).resolve_right hhands)
  obtain ⟨i, hi⟩ := List.getElem?_of_mem hx
  refine ⟨i, x, hi, rfl, fun j x' hj hclient => h.thread_unique hi hj hclient, fun hexited => ?_⟩
  -- what that thread's removal has freed is not live
  obtain ⟨freed, hfreed⟩ := hexit.exited x hx hexited
  refine ⟨freed, hfreed, ?_⟩
  rintro rfl
  exact (hexit.freed _ _ hfreed).1 hmem

end Window

/-! ## The result -/

/-- **`add_chat_client` returns its own record**, and each live record is served once, in
exactly the runs in which every new record stands at the end of the array again when it is
returned. -/
theorem handsOwn_iff_noGap (config : ChatServerConfig) {ls : List Label} {s : System}
    (hrun : Run (Step config ChatServer.lastClient) System.init ls s) :
    (HandsOwn s ∧ ServedOnce s) ↔
      Run (Guarded NoGap (Step config ChatServer.lastClient)) System.init ls s := by
  constructor
  · exact fun h => noGap_of_handsOwn hrun h.1
  · intro hguarded
    obtain ⟨hown, hhanded⟩ := handedOver_of_noGap hguarded
    exact ⟨hown, hhanded.servedOnce (exitInv hrun)⟩

/-- Two clients are served and a third one is made; then a client leaves before
`add_chat_client` returns. -/
def leavesInWindow (thread : ℕ) : List Label :=
  [.accept 4, .add, .handOver, .spawn, .accept 5, .add, .handOver, .spawn, .accept 6, .add,
    .hangUp thread, .remove thread, .handOver]

/-- The second client leaves: the third one takes its place, which is the last one now. -/
theorem handsOwn_iff_noGap_second :
    ∃ s, s.removed = [(1, some 1)] ∧
      Run (Guarded NoGap (Step smallConfig ChatServer.lastClient)) System.init (leavesInWindow 1) s ∧
      HandsOwn s ∧ ServedOnce s := by
  have heval : (System.run smallConfig ChatServer.lastClient (leavesInWindow 1)).map
      (fun s => (s.returned, s.removed)) =
        some ([(0, some 0), (1, some 1), (2, some 2)], [(1, some 1)]) := by decide
  obtain ⟨s, hrun, hs⟩ := run_of_labels heval
  obtain ⟨hreturned, hremoved⟩ := Prod.mk.inj hs
  have hguarded := noGap_of_handsOwn hrun (by rw [HandsOwn, hreturned]; decide)
  exact ⟨s, hremoved, hguarded, (handsOwn_iff_noGap smallConfig hrun).mpr hguarded⟩

/-- The first client leaves: the third one takes its place, and the second one is returned. -/
theorem not_handsOwn_first :
    ¬∀ (config : ChatServerConfig) (ls : List Label) (s : System),
      Run (Step config ChatServer.lastClient) System.init ls s → HandsOwn s ∧ ServedOnce s := by
  intro h
  have heval : (System.run smallConfig ChatServer.lastClient (leavesInWindow 0)).map
      System.returned = some [(0, some 0), (1, some 1), (2, some 1)] := by decide
  obtain ⟨s, hrun, hreturned⟩ := run_of_labels heval
  have hthird : (2, some 1) ∈ s.returned := by
    rw [hreturned]
    decide
  cases (h _ _ _ hrun).1 _ hthird

end NetworkServers.Chat
