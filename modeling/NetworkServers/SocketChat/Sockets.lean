import NetworkServers.SocketChat.Server

/-!
# Which Sockets the Chat Server Knows

The list of clients is changed by `connection` and `end` only. That is enough as long as
every socket goes by way of `end`: then the list holds exactly the open sockets, and a
broadcast is written to exactly these. A socket that is reset emits `error` instead, and
takes the whole server down with it.
-/

namespace NetworkServers.SocketChat

open NetworkServers.Runs

/-- The server runs, its list holds the open sockets, each of them once, and so has every
broadcast been written to the sockets that were open then, once to each of them. -/
structure Survives (s : System) : Prop where
  running : s.running = true
  nodup : s.clients.Nodup
  listed : ∀ i, i ∈ s.clients ↔ s.life i = some .open
  exact : ∀ b ∈ s.broadcasts, b.targets.Perm b.opened

/-- The sockets are numbered by their connections. -/
structure Inv (s : System) : Prop extends Survives s where
  numbered : ∀ i, (s.life i).isSome → i < s.connections

variable {maxNameLength : Option ℤ} {s t : System} {e : Event} {i : ℕ}

theorem inv_init : Inv System.init where
  running := rfl
  nodup := List.nodup_nil
  listed := fun _ => ⟨fun h => absurd h List.not_mem_nil, nofun⟩
  exact := fun _ hb => absurd hb List.not_mem_nil
  numbered := fun _ h => nomatch h

/-- The list is a permutation of the open sockets. -/
theorem Inv.perm_opened (h : Inv s) : s.clients.Perm s.opened := by
  apply (List.perm_ext_iff_of_nodup h.nodup (List.nodup_range.filter _)).mpr
  intro i
  show i ∈ s.clients ↔ i ∈ (List.range s.connections).filter _
  rw [h.listed, List.mem_filter, List.mem_range, decide_eq_true_iff]
  constructor
  · intro hopen
    exact ⟨h.numbered i (by rw [hopen]; rfl), hopen⟩
  · exact fun hopen => hopen.2

/-- A new connection is listed, and it was not before. -/
theorem Inv.welcome (h : Inv s) : Inv s.welcome where
  running := h.running
  nodup := by
    -- the number of a new connection has not been used
    have hfresh : s.connections ∉ s.clients := by
      intro hmem
      have hopen := (h.listed _).mp hmem
      exact Nat.lt_irrefl _ (h.numbered s.connections (by rw [hopen]; rfl))
    show (s.clients ++ [s.connections]).Nodup
    rw [← List.concat_eq_append]
    exact h.nodup.concat hfresh
  listed := by
    intro i
    show i ∈ s.clients ++ [s.connections] ↔ Function.update s.life s.connections _ i = _
    rw [List.mem_append, List.mem_singleton]
    rcases eq_or_ne i s.connections with rfl | hne
    · rw [Function.update_self]
      exact ⟨fun _ => rfl, fun _ => .inr rfl⟩
    · rw [Function.update_of_ne hne, h.listed]
      exact ⟨fun hi => hi.resolve_right hne, .inl⟩
  exact := h.exact
  numbered := by
    intro i hi
    change (Function.update s.life s.connections _ i).isSome at hi
    rcases eq_or_ne i s.connections with rfl | hne
    · exact Nat.lt_succ_self _
    · rw [Function.update_of_ne hne] at hi
      exact Nat.lt_succ_of_lt (h.numbered i hi)

/-- What becomes of a socket that there has been does not change the numbers. -/
theorem Inv.numbered_update (h : Inv s) (hi : (s.life i).isSome) (life : Life) {j : ℕ}
    (hj : (Function.update s.life i (some life) j).isSome) : j < s.connections := by
  rcases eq_or_ne j i with rfl | hne
  · exact h.numbered j hi
  · rw [Function.update_of_ne hne] at hj
    exact h.numbered j hj

/-- A socket that has ended is no longer listed. -/
theorem Inv.remove (h : Inv s) (hopen : s.life i = some .open) : Inv (s.remove i) where
  running := h.running
  nodup := h.nodup.filter _
  listed := by
    intro j
    show j ∈ s.clients.filter _ ↔ Function.update s.life i _ j = _
    rw [List.mem_filter, decide_eq_true_iff, h.listed]
    rcases eq_or_ne j i with rfl | hne
    · rw [Function.update_self]
      exact ⟨fun hj => absurd rfl hj.2, nofun⟩
    · rw [Function.update_of_ne hne]
      exact ⟨fun hj => hj.1, fun hj => ⟨hj, hne⟩⟩
  exact := h.exact
  numbered := fun _ hj => h.numbered_update (by rw [hopen]; rfl) _ hj

/-- A message changes no socket, and a broadcast goes to the clients that are listed. -/
theorem Inv.react (h : Inv s) (reaction : Reaction) : Inv (s.react i reaction) := by
  cases reaction with
  | reply name text => exact ⟨⟨h.running, h.nodup, h.listed, h.exact⟩, h.numbered⟩
  | broadcast text =>
    refine ⟨⟨h.running, h.nodup, h.listed, ?_⟩, h.numbered⟩
    intro b hb
    rcases List.mem_append.mp hb with hold | hnew
    · exact h.exact b hold
    · rw [List.mem_singleton.mp hnew]
      exact h.perm_opened

/-- A socket that closes was not open any more. -/
theorem Inv.close (h : Inv s) (hgone : s.life i = some .destroyed ∨ s.life i = some .failed) :
    Inv (s.close i) where
  running := h.running
  nodup := h.nodup
  listed := by
    intro j
    show j ∈ s.clients ↔ Function.update s.life i _ j = _
    rw [h.listed]
    rcases eq_or_ne j i with rfl | hne
    · rw [Function.update_self]
      constructor
      · intro hopen
        rw [hopen] at hgone
        rcases hgone with hgone | hgone <;> cases hgone
      · nofun
    · rw [Function.update_of_ne hne]
  exact := h.exact
  numbered := by
    intro j hj
    have hsome : (s.life i).isSome := by rcases hgone with hgone | hgone <;> rw [hgone] <;> rfl
    exact h.numbered_update hsome _ hj

/-- Every event but `error` keeps the invariant. -/
theorem Step.inv (hstep : Step maxNameLength s e t) (h : Inv s) (he : ∀ i, e ≠ .error i) :
    Inv t := by
  obtain ⟨-, hcases⟩ := hstep.cases
  rcases hcases with ⟨-, rfl⟩ | ⟨i, data, -, -, rfl⟩ | ⟨i, -, hopen, rfl⟩ | ⟨i, rfl, -, -⟩ |
    ⟨i, -, hgone, rfl⟩
  · exact h.welcome
  · exact h.react _
  · exact h.remove hopen
  · exact absurd rfl (he i)
  · exact h.close hgone

/-- After an `error`, the server does not run. -/
theorem Step.ne_error (hstep : Step maxNameLength s e t) (ht : t.running = true) (i : ℕ) :
    e ≠ .error i := by
  rintro rfl
  obtain ⟨-, hcases⟩ := hstep.cases
  rcases hcases with ⟨h, -⟩ | ⟨_, _, h, -⟩ | ⟨_, h, -⟩ | ⟨_, _, -, rfl⟩ | ⟨_, h, -⟩
  · cases h
  · cases h
  · cases h
  · cases ht
  · cases h

/-- As long as the server runs, there has been no `error`. -/
theorem run_no_error {events : List Event} (hrun : Run (Step maxNameLength) System.init events s)
    (h : s.running = true) : ∀ i, .error i ∉ events := by
  intro i hmem
  have hguarded : Run (Guarded (fun _ e => ∀ i, e ≠ .error i) (Step maxNameLength))
      System.init events s := by
    refine Run.guarded_of_final (fun s => s.running = true) ?_ hrun h
    intro _ t e u _ hstep hu
    exact ⟨hstep.cases.1, hstep.ne_error hu⟩
  exact hguarded.labels_of_guarded _ hmem i rfl

/-- Without an `error`, the invariant holds. -/
theorem run_inv {events : List Event} (hrun : Run (Step maxNameLength) System.init events s)
    (h : ∀ i, .error i ∉ events) : Inv s := by
  have hguarded : Run (Guarded (fun _ e => ∀ i, e ≠ .error i) (Step maxNameLength))
      System.init events s := by
    apply hrun.guarded_of_labels
    rintro e he i rfl
    exact h i he
  refine Run.invariant inv_init ?_ hguarded
  exact fun t e u ht hstep => hstep.2.inv ht hstep.1

/-- **Surviving all events**: after any run of any number of sockets, the server runs, its
list is exact and all broadcasts have reached exactly the open sockets, if and only if no
socket has emitted `error`. -/
theorem survives_iff {events : List Event} (hrun : Run (Step maxNameLength) System.init events s) :
    Survives s ↔ ∀ i, .error i ∉ events :=
  ⟨fun h => run_no_error hrun h.running, fun h => (run_inv hrun h).toSurvives⟩

/-- Two clients, of which the first one is reset. -/
def resetEvents : List Event := [.connection, .connection, .error 0]

/-- The state after events, if they can occur. -/
def System.after (maxNameLength : Option ℤ) (events : List Event) : Option System :=
  events.foldlM (fun s e => s.next maxNameLength e) System.init

theorem run_of_after {events : List Event} (h : System.after maxNameLength events = some s) :
    Run (Step maxNameLength) System.init events s :=
  Run.of_foldlM h

/-- The reset of one connection ends the server, and the other client is lost. -/
theorem not_survives_reset :
    ∃ s, Run (Step (some 50)) System.init resetEvents s ∧ s.running = false ∧
      s.clients = [0, 1] ∧ s.life 1 = some .open ∧ ¬Survives s := by
  refine ⟨_, run_of_after rfl, rfl, rfl, rfl, ?_⟩
  intro h
  exact absurd h.running Bool.false_ne_true

/-- Two clients, of which the first one says good-bye. -/
theorem survives_iff_end :
    ∃ s, Run (Step (some 50)) System.init [.connection, .connection, .ended 0, .close 0] s ∧
      Survives s := by
  have hrun : Run (Step (some 50)) System.init [.connection, .connection, .ended 0, .close 0] _ :=
    run_of_after rfl
  refine ⟨_, hrun, (survives_iff hrun).mpr ?_⟩
  simp

end NetworkServers.SocketChat
