import NetworkServers.Chat.Sockets

/-!
# The Order of Broadcasts

A handler sends a broadcast under `server_mutex`, to the descriptors of all registered
clients. All clients get what is sent to them from one log of broadcasts, in its order, and
the log has the messages of each handler in the order in which they were received.
-/

namespace NetworkServers.Chat

open NetworkServers.CString NetworkServers.Runs

/-! ## The property -/

/-- The number and the text of a broadcast. -/
def Packet.broadcast? : Packet → Option (ℕ × List UInt8)
  | .reply _ => none
  | .broadcast number text => some (number, text)

/-- The broadcasts that have been sent on a connection. -/
def System.broadcastsTo (s : System) (conn : ℕ) : List (ℕ × List UInt8) :=
  (s.sent conn).filterMap Packet.broadcast?

/-- The numbers of these broadcasts. -/
def System.numbersTo (s : System) (conn : ℕ) : List ℕ := (s.broadcastsTo conn).map Prod.fst

/-- What a broadcast with this number sends on a connection. -/
def Broadcast.sentTo (conn : ℕ) (b : Broadcast × ℕ) : Option (ℕ × List UInt8) :=
  if b.1.targets.contains (some conn) then some (b.2, b.1.text) else none

/-- The message that a handler broadcasts next. -/
def Phase.pending : Phase → List (List UInt8)
  | .broadcasts message _ => [message]
  | _ => []

/-- The text of a broadcast for a message of a client with some name. -/
def TextOf (message text : List UInt8) : Prop :=
  ∃ name, text = name ++ bytes ": " ++ cString message

/-- Every broadcast goes once to each client that was registered, on the connection of that
client, and nowhere else; any two clients get the broadcasts that both of them get in the
same order; and the broadcasts of a client, which has one handler, follow its messages. -/
structure TotalOrder (s : System) : Prop where
  targets : ∀ b ∈ s.log, b.targets = b.clients.map s.connOf ∧ b.targets.Nodup ∧ none ∉ b.targets
  sent : ∀ conn, s.broadcastsTo conn = s.log.zipIdx.filterMap (Broadcast.sentTo conn)
  order : ∀ conn conn' m n, [m, n].Sublist (s.numbersTo conn) →
    m ∈ s.numbersTo conn' → n ∈ s.numbersTo conn' → [m, n].Sublist (s.numbersTo conn')
  text : ∀ b ∈ s.log, TextOf b.message b.text
  sender : ∀ (i : ℕ) (h : Handler), s.threads[i]? = some h →
    (∀ (j : ℕ) (h' : Handler), s.threads[j]? = some h' → h'.client = h.client → j = i) ∧
      (s.log.filter (·.thread = i)).map Broadcast.message ++ h.phase.pending = h.heard

/-! ## Sending -/

section Deliver

variable {sent : ℕ → List Packet} {packet : Packet} {targets : List (Option ℕ)} {conn : ℕ}

/-- A packet is sent once on each of its connections. -/
theorem deliver_eq (hnodup : targets.Nodup) : deliver sent packet targets conn =
    if some conn ∈ targets then sent conn ++ [packet] else sent conn := by
  induction targets generalizing sent with
  | nil => rfl
  | cons target targets ih =>
    obtain ⟨hfresh, htargets⟩ := List.nodup_cons.mp hnodup
    cases target with
    | none =>
      rw [deliver, ih htargets]
      simp only [List.mem_cons, reduceCtorEq, false_or]
    | some other =>
      rw [deliver, ih htargets]
      rcases eq_or_ne conn other with rfl | hne
      · -- the connection is the first target, and it is no target again
        rw [if_neg hfresh, Function.update_self, if_pos List.mem_cons_self]
      · simp only [Function.update_of_ne hne, List.mem_cons, Option.some.injEq, hne, false_or]

/-- An answer to a rename is no broadcast. -/
theorem filterMap_deliver_reply (text : List UInt8) (target : Option ℕ) :
    (deliver sent (.reply text) [target] conn).filterMap Packet.broadcast? =
      (sent conn).filterMap Packet.broadcast? := by
  rw [deliver_eq (List.nodup_singleton _)]
  split
  · rw [List.filterMap_append]
    exact List.append_nil _
  · rfl

end Deliver

/-- The numbers on a connection increase. -/
theorem pairwise_sentTo (conn : ℕ) (log : List Broadcast) :
    ((log.zipIdx.filterMap (Broadcast.sentTo conn)).map Prod.fst).Pairwise (· < ·) := by
  have hindices : log.zipIdx.Pairwise fun a b => a.2 < b.2 := by
    apply List.pairwise_map.mp
    show (log.zipIdx.map Prod.snd).Pairwise (· < ·)
    rw [List.zipIdx_map_snd]
    exact List.pairwise_lt_range'
  rw [List.pairwise_map]
  apply hindices.filterMap
  intro a b hlt a' ha b' hb
  obtain ⟨-, ha⟩ := Option.ite_none_right_eq_some.mp ha
  obtain ⟨-, hb⟩ := Option.ite_none_right_eq_some.mp hb
  rw [← Option.some.inj ha, ← Option.some.inj hb]
  exact hlt

section Order

variable {config : ChatServerConfig} {returns : ChatServer → ClientRef → Option ClientRef}
  {s t : System} {l : Label} {ls : List Label}

/-! ## Open sockets -/

/-- The steps apart from a failed `accept`. -/
def NotFailed (l : Label) : Prop := l ≠ .acceptFails

/-- No call of `accept` has failed. -/
structure AcceptedInv (s : System) : Prop where
  sockets : SocketInv s
  record : ∀ r c, s.server.heap r = some c → c.socket ≠ -1
  pending : ∀ socket conn, s.accepting = .adds socket conn → socket ≠ -1

theorem AcceptedInv.init : AcceptedInv System.init where
  sockets := .init
  record := nofun
  pending := nofun

theorem AcceptedInv.step (h : AcceptedInv s)
    (hstep : Guarded (fun _ l => NotFailed l) (Step config returns) s l t) : AcceptedInv t := by
  obtain ⟨hguard, hstep⟩ := hstep
  refine ⟨h.sockets.step hstep, ?_, ?_⟩
  · cases hstep with
    | @add socket conn hphase =>
      intro r c hr
      rcases update_eq_some hr with ⟨-, hnew⟩ | ⟨-, hr⟩
      · rw [← Option.some.inj hnew]
        exact h.pending socket conn hphase
      · exact h.record r c hr
    | @receive i data x c hthread hphase hrecord =>
      intro r c' hr
      rcases update_eq_some hr with ⟨-, hnew⟩ | ⟨-, hr⟩
      · rw [← Option.some.inj hnew, ChatClient.after_socket]
        exact h.record _ c hrecord
      · exact h.record r c' hr
    | remove _ _ hrecord => exact fun r c hr => h.record r c (h.sockets.of_left hrecord hr).1
    | accept | acceptFails | handOver | spawn | hangUp | reply | broadcast => exact h.record
  · cases hstep with
    | @accept socket hphase hsocket =>
      intro socket' conn haccepting
      obtain ⟨rfl, -⟩ := Accepting.adds.inj haccepting
      -- a descriptor is not negative
      exact fun heq => absurd (heq ▸ hsocket) (by decide)
    | acceptFails => exact absurd rfl hguard
    | add | handOver | spawn => exact nofun
    | receive | hangUp | reply | broadcast => exact h.pending
    | remove => exact fun socket conn haccepting => h.pending socket conn (Accepting.of_after haccepting)

/-- A registered client is on a connection of its own. -/
theorem AcceptedInv.registered (h : AcceptedInv s) {r : ClientRef} (hr : r ∈ s.server.clients) :
    ∃ c conn, s.server.heap r = some c ∧ s.connOf r = some conn ∧ s.conns c.socket = some conn := by
  obtain ⟨c, hrecord⟩ := h.sockets.registry.record hr
  obtain ⟨conn, hconn, hopen⟩ := (h.sockets.record r c hrecord).resolve_left (h.record r c hrecord)
  exact ⟨c, conn, hrecord, hconn, hopen⟩

/-- **The targets of a broadcast** are the connections of the registered clients, each of them
once. -/
theorem AcceptedInv.targets (h : AcceptedInv s) :
    s.targets = s.server.clients.map s.connOf ∧ s.targets.Nodup ∧ none ∉ s.targets := by
  have htargets : s.targets = s.server.clients.map s.connOf := by
    apply List.map_congr_left
    intro r hr
    obtain ⟨c, conn, hrecord, hconn, hopen⟩ := h.registered hr
    rw [hrecord, Option.bind_some, hopen, hconn]
  refine ⟨htargets, ?_, ?_⟩
  · -- two clients are never on one connection
    rw [htargets]
    apply List.Nodup.map_on _ h.sockets.registry.nodup
    intro r hr r' hr' heq
    obtain ⟨-, conn, -, hconn, -⟩ := h.registered hr
    exact h.sockets.distinct r r' conn hconn (heq ▸ hconn)
  · rw [htargets]
    intro hnone
    obtain ⟨r, hr, hmissing⟩ := List.mem_map.mp hnone
    obtain ⟨-, conn, -, hconn, -⟩ := h.registered hr
    rw [hconn] at hmissing
    cases hmissing

/-! ## The log -/

/-- The log tells what has been sent. -/
structure LogInv (s : System) : Prop where
  made : ∀ b ∈ s.log, ∀ r ∈ b.clients, r < s.server.clientIncrement
  targets : ∀ b ∈ s.log, b.targets = b.clients.map s.connOf ∧ b.targets.Nodup ∧ none ∉ b.targets
  sent : ∀ conn, s.broadcastsTo conn = s.log.zipIdx.filterMap (Broadcast.sentTo conn)

theorem LogInv.init : LogInv System.init where
  made := fun _ h => absurd h List.not_mem_nil
  targets := fun _ h => absurd h List.not_mem_nil
  sent := fun _ => rfl

/-- A broadcast is appended to the log and to what its targets have got. -/
theorem LogInv.broadcasted (h : LogInv s) (haccepted : AcceptedInv s) {i : ℕ} {x : Handler}
    {message text : List UInt8} : LogInv (s.broadcasted i x message text) where
  made := by
    intro b hb r hr
    rcases List.mem_append.mp hb with hb | hb
    · exact h.made b hb r hr
    · rw [List.mem_singleton.mp hb] at hr
      exact haccepted.sockets.registry.made r hr
  targets := by
    intro b hb
    rcases List.mem_append.mp hb with hb | hb
    · exact h.targets b hb
    · rw [List.mem_singleton.mp hb]
      exact haccepted.targets
  sent := by
    intro conn
    show (deliver s.sent (.broadcast s.log.length text) s.targets conn).filterMap _ =
      (s.log ++ [_]).zipIdx.filterMap _
    rw [deliver_eq haccepted.targets.2.1, List.zipIdx_append, List.filterMap_append, ← h.sent conn,
      Nat.zero_add, List.zipIdx_singleton]
    -- a connection gets the packet exactly if the log has it as a target
    rcases Decidable.em (some conn ∈ s.targets) with hmem | hmem
    · have hlast : Broadcast.sentTo conn (⟨i, message, text, s.server.clients, s.targets⟩,
          s.log.length) = some (s.log.length, text) := if_pos (List.contains_iff_mem.mpr hmem)
      rw [if_pos hmem, List.filterMap_append, List.filterMap_cons_some hlast]
      rfl
    · have hlast : Broadcast.sentTo conn (⟨i, message, text, s.server.clients, s.targets⟩,
          s.log.length) = none := if_neg (mt List.contains_iff_mem.mp hmem)
      rw [if_neg hmem, List.filterMap_cons_none hlast]
      exact (List.append_nil _).symm

theorem LogInv.step (h : LogInv s) (haccepted : AcceptedInv s)
    (hstep : Step config returns s l t) : LogInv t := by
  cases hstep with
  | broadcast => exact h.broadcasted haccepted
  | reply =>
    exact ⟨h.made, h.targets, fun conn => (filterMap_deliver_reply _ _).trans (h.sent conn)⟩
  | @add socket conn =>
    refine ⟨fun b hb r hr => Nat.lt_succ_of_lt (h.made b hb r hr), fun b hb => ?_, h.sent⟩
    -- the clients of the log have been made before
    have hold : b.clients.map (s.added socket conn).connOf = b.clients.map s.connOf :=
      List.map_congr_left fun r hr => Function.update_of_ne (h.made b hb r hr).ne _ _
    rw [hold]
    exact h.targets b hb
  | remove =>
    refine ⟨fun b hb r hr => ?_, h.targets, h.sent⟩
    show r < (s.server.removeChatClient _).clientIncrement
    rw [clientIncrement_removeChatClient]
    exact h.made b hb r hr
  | accept | acceptFails | handOver | spawn | receive | hangUp =>
    exact ⟨h.made, h.targets, h.sent⟩

/-! ## The messages of a handler -/

theorem filter_thread_concat (log : List Broadcast) (b : Broadcast) (i : ℕ) :
    (log ++ [b]).filter (·.thread = i) =
      log.filter (·.thread = i) ++ if b.thread = i then [b] else [] := by
  rw [List.filter_append, List.filter_singleton, Bool.cond_decide]

/-- What a handler has heard is what it has sent and what it sends next. -/
structure Heard (log : List Broadcast) (i : ℕ) (h : Handler) : Prop where
  order : (log.filter (·.thread = i)).map Broadcast.message ++ h.phase.pending = h.heard
  text : ∀ message text, h.phase = .broadcasts message text → TextOf message text

/-- A handler that has nothing to send. -/
theorem Heard.of_idle {log : List Broadcast} {i : ℕ} {h h' : Handler} (hheard : Heard log i h)
    (hidle : h.phase.pending = []) (hidle' : h'.phase.pending = []) (hsame : h'.heard = h.heard) :
    Heard log i h' where
  order := by
    rw [hidle', hsame, ← hheard.order, hidle]
  text := by
    intro message text hphase
    rw [hphase] at hidle'
    cases hidle'

/-- The log has the messages of each handler in their order. -/
structure SenderInv (s : System) : Prop where
  thread : ∀ b ∈ s.log, b.thread < s.threads.length
  text : ∀ b ∈ s.log, TextOf b.message b.text
  heard : ∀ i h, s.threads[i]? = some h → Heard s.log i h

theorem SenderInv.init : SenderInv System.init where
  thread := fun _ h => absurd h List.not_mem_nil
  text := fun _ h => absurd h List.not_mem_nil
  heard := nofun

/-- A handler moves without a broadcast. -/
theorem SenderInv.set (h : SenderInv s) {i : ℕ} {x' : Handler} (hthreads : t.threads = s.threads.set i x')
    (hlog : t.log = s.log) (hmoved : Heard s.log i x') : SenderInv t := by
  refine ⟨?_, hlog ▸ h.text, ?_⟩
  · rw [hlog, hthreads, List.length_set]
    exact h.thread
  · rw [hlog, hthreads]
    exact forall_thread_set (fun j y _ hj => h.heard j y hj) hmoved

/-- A message is answered, or it is heard and sent next. -/
theorem Heard.after {log : List Broadcast} {i : ℕ} {x : Handler} {name data : List UInt8}
    (h : Heard log i x) (hphase : x.phase = .receives) :
    Heard log i (x.after data (react config name data)) := by
  have hidle : x.phase.pending = [] := by
    rw [hphase]
    rfl
  unfold react
  dsimp only
  split
  · split <;> exact h.of_idle hidle rfl rfl
  · refine ⟨?_, fun message text hphase' => ?_⟩
    · have hbefore := h.order
      rw [hidle, List.append_nil] at hbefore
      show _ ++ [data] = x.heard ++ [data]
      rw [hbefore]
    · obtain ⟨rfl, rfl⟩ := Phase.broadcasts.inj hphase'
      exact ⟨name, rfl⟩

/-- A broadcast moves the message of its handler to the log. -/
theorem SenderInv.broadcasted (h : SenderInv s) {i : ℕ} {x : Handler} {message text : List UInt8}
    (hthread : s.threads[i]? = some x) (hphase : x.phase = .broadcasts message text) :
    SenderInv (s.broadcasted i x message text) := by
  have hbefore := h.heard i x hthread
  refine ⟨fun b hb => ?_, fun b hb => ?_, ?_⟩
  · show b.thread < (s.threads.set i _).length
    rw [List.length_set]
    rcases List.mem_append.mp hb with hb | hb
    · exact h.thread b hb
    · rw [List.mem_singleton.mp hb]
      exact (List.getElem?_eq_some_iff.mp hthread).1
  · rcases List.mem_append.mp hb with hb | hb
    · exact h.text b hb
    · rw [List.mem_singleton.mp hb]
      exact hbefore.text message text hphase
  · apply forall_thread_set
    · -- the log has nothing new of the other handlers
      intro j y hne hj
      refine ⟨?_, (h.heard j y hj).text⟩
      show ((s.log ++ [_]).filter fun b : Broadcast => b.thread = j).map _ ++ _ = _
      rw [filter_thread_concat, if_neg hne.symm, List.append_nil]
      exact (h.heard j y hj).order
    · -- the pending message of the sender is the last one of the log
      refine ⟨?_, nofun⟩
      show ((s.log ++ [_]).filter fun b : Broadcast => b.thread = i).map _ ++ [] = x.heard
      rw [filter_thread_concat, if_pos rfl, List.map_append, List.append_nil, ← hbefore.order, hphase]
      rfl

theorem SenderInv.step (h : SenderInv s) (hstep : Step config returns s l t) : SenderInv t := by
  cases hstep with
  | accept | acceptFails | add | handOver => exact ⟨h.thread, h.text, h.heard⟩
  | spawn =>
    refine ⟨fun b hb => ?_, h.text, forall_thread_concat h.heard ⟨?_, nofun⟩⟩
    · show b.thread < (s.threads ++ [_]).length
      rw [List.length_append]
      exact Nat.lt_add_right _ (h.thread b hb)
    · -- no broadcast has the number of a thread that is new
      have hnone : s.log.filter (·.thread = s.threads.length) = [] := by
        rw [List.filter_eq_nil_iff]
        intro b hb heq
        exact (h.thread b hb).ne (of_decide_eq_true heq)
      show (s.log.filter _).map _ ++ [] = []
      rw [hnone]
      rfl
  | receive hthread hphase => exact h.set rfl rfl ((h.heard _ _ hthread).after hphase)
  | hangUp hthread hphase | reply hthread hphase | remove hthread hphase =>
    exact h.set rfl rfl ((h.heard _ _ hthread).of_idle (hphase ▸ rfl) rfl rfl)
  | broadcast hthread hphase => exact h.broadcasted hthread hphase

end Order

/-! ## The result -/

/-- **Total order**: what the clients get are parts of one sequence of broadcasts, each of which
goes to all clients that are registered, and this sequence keeps the order of each client's
messages. -/
theorem totalOrder (config : ChatServerConfig) {ls : List Label} {s : System}
    (hrun : Run (Guarded (fun _ l => NotFailed l) (Step config ownRecord)) System.init ls s) :
    TotalOrder s := by
  have haccepted : AcceptedInv s ∧ LogInv s := by
    apply hrun.invariant ⟨.init, .init⟩
    intro s l t ⟨haccepted, hlog⟩ hstep
    exact ⟨haccepted.step hstep, hlog.step haccepted hstep.2⟩
  have hsender : SenderInv s := hrun.unguarded.invariant .init fun _ _ _ => SenderInv.step
  have hhanded : HandedOver s := hrun.unguarded.invariant HandedOver.init fun _ _ _ h hstep =>
    h.step (fun _ _ _ _ _ => rfl) hstep
  have hsorted : ∀ conn, (s.numbersTo conn).Pairwise (· < ·) := by
    intro conn
    unfold System.numbersTo
    rw [haccepted.2.sent conn]
    exact pairwise_sentTo conn s.log
  refine ⟨haccepted.2.targets, haccepted.2.sent, fun conn conn' m n hboth hm hn => ?_, hsender.text,
    fun i h hi => ⟨fun j h' hj => hhanded.thread_unique hi hj, (hsender.heard i h hi).order⟩⟩
  -- the order on a connection is the order of the numbers
  obtain ⟨-, -, hlt⟩ := (pair_sublist_iff (hsorted conn)).mp hboth
  exact (pair_sublist_iff (hsorted conn')).mpr ⟨hm, hn, hlt⟩

/-- Two clients join, and one of them speaks; then the other one leaves, the number of its
descriptor is used again for a third one, and that one speaks. -/
def joinAndLeave : List Label :=
  [.accept 4, .add, .handOver, .spawn, .accept 5, .add, .handOver, .spawn, .receive 0 [104],
    .broadcast 0, .hangUp 1, .remove 1, .accept 5, .add, .handOver, .spawn, .receive 2 [105],
    .broadcast 2]

/-- The first broadcast goes to the first two connections, the second one to the first and the
third one. -/
theorem totalOrder_joinAndLeave :
    ∃ s, s.log.map Broadcast.targets = [[some 0, some 1], [some 0, some 2]] ∧ TotalOrder s := by
  have heval : (System.run smallConfig ownRecord joinAndLeave).map
      (fun s => s.log.map Broadcast.targets) = some [[some 0, some 1], [some 0, some 2]] := by
    decide
  obtain ⟨s, hrun, htargets⟩ := run_of_labels heval
  exact ⟨s, htargets, totalOrder smallConfig (hrun.guarded_of_labels (by unfold NotFailed; decide))⟩

end NetworkServers.Chat
