import NetworkServers.Library.Splitting
import NetworkServers.SocketChat.Sockets

/-!
# Who Has Written a Line

What a client reads are lines, and a line should tell whom it comes from: the server's own
answers begin with `Server: `, and a message with the name of its sender. A message is only
trimmed at its ends, so that it may be several lines, and a name may be anything: what
follows the first newline, and a name that looks like the server's, are taken for somebody
else's words.
-/

namespace NetworkServers.SocketChat

open NetworkServers.Js NetworkServers.Runs

/-! ## Lines -/

/-- The lines of a text that end in a newline. -/
def linesOf (text : JsString) : List JsString := (split (js "\n") text).dropLast

/-- Every line of a text is an answer of the server to the client that it goes to, or begins
with the name of the client that has caused it. -/
def Written.Attributable (w : Written) : Prop :=
  ∀ line ∈ linesOf w.text,
    (w.isReply = true ∧ w.target = w.source ∧ js "Server: " <+: line) ∨
    ∃ name, w.name = some name ∧ name ++ js ":" <+: line

/-- The text has a line that another client takes for the server's. -/
def Written.Forges (w : Written) : Prop :=
  w.target ≠ w.source ∧ ∃ line ∈ linesOf w.text, js "Server: " <+: line

/-- All that has been written is attributable, and nothing is forged. -/
def LinesOk (s : System) : Prop := ∀ w ∈ s.written, w.Attributable ∧ ¬w.Forges

/-- A message with which a client, called `name`, keeps to its name: the name is one line, so
is the message, or else it has the name in front of each further line; and the name does not
look like the server's, unless nobody else listens. -/
structure KeepsName (name message : JsString) (alone : Prop) : Prop where
  line : 10 ∉ name
  lines : ∀ line ∈ (split (js "\n") message).tail, name ++ js ":" <+: line
  own : alone ∨ ¬(js "Server: " <+: name ∨ name = js "Server" ∧ message ≠ [])

instance (name message : JsString) (alone : Prop) [Decidable alone] :
    Decidable (KeepsName name message alone) :=
  decidable_of_iff (10 ∉ name ∧ (∀ line ∈ (split (js "\n") message).tail, name ++ js ":" <+: line) ∧
      (alone ∨ ¬(js "Server: " <+: name ∨ name = js "Server" ∧ message ≠ [])))
    ⟨fun h => ⟨h.1, h.2.1, h.2.2⟩, fun h => ⟨h.line, h.lines, h.own⟩⟩

/-- The condition on an event: a message that is broadcast keeps to the name. -/
def Honest (s : System) : Event → Prop
  | .data i data =>
    js "/rename " <+: messageOf data ∨
      ∀ name, s.name i = some name → KeepsName name (messageOf data) (∀ c ∈ s.clients, c = i)
  | _ => True

instance (s : System) : (e : Event) → Decidable (Honest s e)
  | .data i data =>
    inferInstanceAs (Decidable (js "/rename " <+: messageOf data ∨
      ∀ name ∈ s.name i, KeepsName name (messageOf data) (∀ c ∈ s.clients, c = i)))
  | .connection | .ended _ | .error _ | .close _ => .isTrue trivial

/-- The names that clients have are not empty, and trimmed. -/
def NamesTrimmed (s : System) : Prop :=
  ∀ i name, s.name i = some name → name ≠ [] ∧ Trimmed name

/-! ## Broadcasts -/

section Broadcast

variable {name message : JsString}

theorem linesOf_newline (text : JsString) : linesOf (text ++ js "\n") = split (js "\n") text := by
  have hsplit : split (js "\n") (text ++ js "\n") = split (js "\n") text ++ [[]] :=
    split_append_cons 10 text []
  rw [linesOf, hsplit, List.dropLast_concat]

/-- The text of a broadcast: only the blank behind the colon may be trimmed away. -/
theorem broadcastOf_eq (hname : Trimmed name) (hne : name ≠ []) (hmessage : Trimmed message) :
    broadcastOf name message =
      name ++ js ":" ++ if message = [] then [] else js " " ++ message := by
  unfold broadcastOf
  split
  · rename_i hnil
    rw [hnil, List.append_nil, List.append_nil]
    exact trim_concat hname.head (by decide) (by decide)
  · rename_i hmne
    have htext : name ++ js ": " ++ message = name ++ js ":" ++ (js " " ++ message) := by
      simp only [List.append_assoc]
      rfl
    rw [← htext]
    apply trim_eq_self
    constructor
    · -- it begins as the name does
      obtain ⟨c, name', rfl⟩ := List.exists_cons_of_ne_nil hne
      exact hname.head
    · -- and ends as the message does
      intro c hc
      rw [List.getLast?_append, Option.mem_def] at hc
      have hlast := List.getLast?_eq_some_getLast hmne
      rw [hlast, Option.some_or] at hc
      exact hmessage.last c (hlast.trans hc)

/-- The lines of a broadcast: the first one has the name, and the others are those of the
message. -/
theorem lines_broadcast (hname : Trimmed name) (hne : name ≠ []) (hmessage : Trimmed message)
    (hline : 10 ∉ name) :
    ∃ first, split (js "\n") (broadcastOf name message) =
      (name ++ js ":" ++ if message = [] then [] else js " " ++ first) ::
        (split (js "\n") message).tail := by
  rw [broadcastOf_eq hname hne hmessage]
  have hcolon : (10 : UInt16) ∉ name ++ js ":" := by
    rw [List.mem_append, not_or]
    exact ⟨hline, by decide⟩
  obtain ⟨first, rest, hsplit⟩ := List.exists_cons_of_ne_nil (split_ne_nil (js "\n") message)
  refine ⟨first, ?_⟩
  split
  · rename_i hnil
    rw [hnil, List.append_nil]
    exact split_of_not_mem List.mem_cons_self hcolon
  · have hblank : (10 : UInt16) ∉ name ++ js ":" ++ js " " := by
      rw [List.mem_append, not_or]
      exact ⟨hcolon, by decide⟩
    -- what stands in front of the message has no line end, so the first line begins with it
    have hprepend : split ([10] : JsString) (name ++ js ":" ++ js " " ++ message) = _ :=
      split_prepend hblank message
    rw [← List.append_assoc]
    refine hprepend.trans ?_
    change (split (js "\n") message).modifyHead _ = _
    rw [hsplit, List.modifyHead_cons, List.append_assoc]
    rfl

/-- Every line of a broadcast begins with the name, exactly if the name is one line and the
further lines of the message begin with it. -/
theorem attributable_iff (hname : Trimmed name) (hne : name ≠ []) (hmessage : Trimmed message) :
    (∀ line ∈ split (js "\n") (broadcastOf name message), name ++ js ":" <+: line) ↔
      10 ∉ name ∧ ∀ line ∈ (split (js "\n") message).tail, name ++ js ":" <+: line := by
  constructor
  · intro h
    have hline : 10 ∉ name := by
      -- a line that begins with the name has no newline, and neither has the name
      intro hmem
      obtain ⟨first, hfirst⟩ := List.exists_mem_of_ne_nil _
        (split_ne_nil (js "\n") (broadcastOf name message))
      have hprefix := (h first hfirst).subset (List.mem_append_left _ hmem)
      exact not_mem_of_mem_split hfirst hprefix
    obtain ⟨first, hlines⟩ := lines_broadcast hname hne hmessage hline
    rw [hlines] at h
    exact ⟨hline, fun line hmem => h line (List.mem_cons_of_mem _ hmem)⟩
  · rintro ⟨hline, htail⟩
    obtain ⟨first, hlines⟩ := lines_broadcast hname hne hmessage hline
    rw [hlines]
    intro line hmem
    rcases List.mem_cons.mp hmem with rfl | hmem
    · exact List.prefix_append _ _
    · exact htail line hmem

/-- A name in front of a colon and the server's prefix: one of them begins the other. -/
theorem nameOrPrefix {line : JsString} (hname : name ++ js ":" <+: line)
    (hserver : js "Server: " <+: line) : js "Server: " <+: name ∨ name = js "Server" := by
  rcases List.prefix_or_prefix_of_prefix hserver hname with h | h
  · -- the prefix does not end with a colon
    rcases List.prefix_concat_iff.mp h with heq | hprefix
    · have hlast := congrArg List.getLast? heq
      rw [List.getLast?_concat] at hlast
      exact absurd hlast (by decide)
    · exact .inl hprefix
  · have hinits : ∀ n ∈ (js "Server: ").inits, n ++ js ":" <+: js "Server: " → n = js "Server" := by
      decide
    refine .inr (hinits name ?_ h)
    rw [List.mem_inits]
    exact (List.prefix_append _ _).trans h

/-- Some line of an attributable broadcast looks like the server's, exactly if the name
does. -/
theorem forges_iff (hname : Trimmed name) (hne : name ≠ []) (hmessage : Trimmed message)
    (hline : 10 ∉ name)
    (htail : ∀ line ∈ (split (js "\n") message).tail, name ++ js ":" <+: line) :
    (∃ line ∈ split (js "\n") (broadcastOf name message), js "Server: " <+: line) ↔
      js "Server: " <+: name ∨ name = js "Server" ∧ message ≠ [] := by
  obtain ⟨first, hlines⟩ := lines_broadcast hname hne hmessage hline
  rw [hlines]
  constructor
  · rintro ⟨line, hmem, hserver⟩
    have hprefix : name ++ js ":" <+: line := by
      rcases List.mem_cons.mp hmem with rfl | hmem
      · exact List.prefix_append _ _
      · exact htail line hmem
    refine (nameOrPrefix hprefix hserver).imp_right fun heq => ⟨heq, ?_⟩
    rintro rfl
    -- `Server:` alone is shorter than the prefix
    rcases List.mem_cons.mp hmem with rfl | hmem
    · rw [heq, if_pos rfl] at hserver
      exact absurd hserver (by decide)
    · cases hmem
  · rintro (hserver | ⟨rfl, hmne⟩)
    · refine ⟨_, List.mem_cons_self, ?_⟩
      rw [List.append_assoc]
      exact hserver.trans (List.prefix_append _ _)
    · refine ⟨_, List.mem_cons_self, ?_⟩
      rw [if_neg hmne]
      exact ⟨first, by rw [← List.append_assoc]; rfl⟩

end Broadcast

/-! ## One event -/

section Event

variable {maxNameLength : Option ℤ} {s t : System} {e : Event} {i : ℕ}

/-- The three answers are one line each, with the server's prefix. -/
theorem lines_reply {text : JsString}
    (h : text = nameTooLong ∨ text = nameChanged ∨ text = nameMissing) :
    ∀ line ∈ linesOf text, js "Server: " <+: line := by
  rcases h with rfl | rfl | rfl
  · exact List.all_iff_forall_prop.mp (by decide)
  · exact List.all_iff_forall_prop.mp (by decide)
  · exact List.all_iff_forall_prop.mp (by decide)

/-- A new name is not empty: the trimmed message does not end with the blank of the
command. -/
theorem newName_ne_nil {data : List UInt8} (h : js "/rename " <+: messageOf data) :
    trim ((messageOf data).drop 8) ≠ [] := by
  obtain ⟨rest, hrest⟩ := h
  have hdrop : (messageOf data).drop 8 = rest := by
    rw [← hrest]
    rfl
  have hlast := (trimmed_trim (utf8Decode data)).last
  change ∀ c ∈ (messageOf data).getLast?, _ at hlast
  rw [← hrest] at hlast
  rw [hdrop]
  rcases List.eq_nil_or_concat' rest with rfl | ⟨front, c, rfl⟩
  · exact absurd (hlast 32 rfl) (by decide)
  · apply trim_ne_nil (c := c) (by simp)
    exact hlast c (by simp [← List.append_assoc])

/-- All that `receive` can do: an answer, with the old name or with a new one that is not
empty, or a broadcast for a client with a name. -/
theorem receive_cases (maxNameLength : Option ℤ) (clientName : Option JsString)
    (data : List UInt8) :
    (∃ name text, receive maxNameLength clientName data = .reply name text ∧
      (text = nameTooLong ∨ text = nameChanged ∨ text = nameMissing) ∧
      (name = clientName ∨ ∃ n, name = some n ∧ n ≠ [] ∧ Trimmed n) ∧
      (js "/rename " <+: messageOf data ∨ clientName = none ∨ clientName = some [])) ∨
    ∃ name, clientName = some name ∧ ¬js "/rename " <+: messageOf data ∧
      receive maxNameLength clientName data =
        .broadcast (broadcastOf name (messageOf data) ++ js "\n") := by
  unfold receive
  dsimp only
  split
  · rename_i hprefix
    rw [List.isPrefixOf_iff_prefix] at hprefix
    left
    split
    · -- too long, and the client keeps its name
      exact ⟨_, _, rfl, .inl rfl, .inl rfl, .inl hprefix⟩
    · exact ⟨_, _, rfl, .inr (.inl rfl), .inr ⟨_, rfl, newName_ne_nil hprefix, trimmed_trim _⟩,
        .inl hprefix⟩
  · rename_i hprefix
    rw [List.isPrefixOf_iff_prefix] at hprefix
    -- without a name, or with an empty one, the client gets an answer only
    cases clientName with
    | none => exact .inl ⟨_, _, rfl, .inr (.inr rfl), .inl rfl, .inr (.inl rfl)⟩
    | some name =>
      cases name with
      | nil => exact .inl ⟨_, _, rfl, .inr (.inr rfl), .inl rfl, .inr (.inr rfl)⟩
      | cons c name => exact .inr ⟨_, rfl, hprefix, rfl⟩

/-- Every event keeps the names as they should be. -/
theorem Step.namesTrimmed (hstep : Step maxNameLength s e t) (h : NamesTrimmed s) :
    NamesTrimmed t := by
  obtain ⟨-, hcases⟩ := hstep.cases
  rcases hcases with ⟨-, rfl⟩ | ⟨i, data, -, -, rfl⟩ | ⟨i, -, -, rfl⟩ | ⟨i, -, -, rfl⟩ |
    ⟨i, -, -, rfl⟩
  · exact h
  · rcases receive_cases maxNameLength (s.name i) data with
      ⟨name, text, heq, -, hname, -⟩ | ⟨name, -, -, heq⟩
    · rw [heq]
      intro j n hn
      change Function.update s.name i name j = some n at hn
      rcases eq_or_ne j i with rfl | hne
      · -- a new name has been trimmed before it is taken
        rw [Function.update_self] at hn
        rcases hname with rfl | ⟨n', rfl, hn'⟩
        · exact h j n hn
        · rwa [← Option.some.inj hn]
      · rw [Function.update_of_ne hne] at hn
        exact h j n hn
    · rw [heq]
      exact h
  · exact h
  · exact h
  · exact h

theorem run_namesTrimmed {events : List Event}
    (hrun : Run (Step maxNameLength) System.init events s) : NamesTrimmed s := by
  refine Run.invariant ?_ (fun _ _ _ h hstep => hstep.namesTrimmed h) hrun
  exact fun _ _ h => nomatch h

/-- What an answer adds. -/
theorem linesOk_reply {name : Option JsString} {text : JsString}
    (htext : text = nameTooLong ∨ text = nameChanged ∨ text = nameMissing) :
    LinesOk (s.react i (.reply name text)) ↔ LinesOk s := by
  have hnew : ∀ w : Written,
      w = { source := i, name := name, target := i, text := text, isReply := true } →
      w.Attributable ∧ ¬w.Forges := by
    rintro w rfl
    exact ⟨fun line hline => .inl ⟨rfl, rfl, lines_reply htext line hline⟩, fun h => h.1 rfl⟩
  show (∀ w ∈ s.written ++ [_], _) ↔ ∀ w ∈ s.written, _
  rw [List.forall_mem_append]
  exact and_iff_left (List.forall_mem_singleton.mpr (hnew _ rfl))

/-- What a broadcast adds is in order exactly if the message keeps to the name. -/
theorem linesOk_broadcast {name message : JsString} (hclient : s.name i = some name)
    (hname : Trimmed name) (hne : name ≠ []) (hmessage : Trimmed message)
    (hlisted : i ∈ s.clients) :
    LinesOk (s.react i (.broadcast (broadcastOf name message ++ js "\n"))) ↔
      LinesOk s ∧ KeepsName name message (∀ c ∈ s.clients, c = i) := by
  -- the same text goes to all clients, so its lines are the same everywhere
  have hattributable : ∀ c, Written.Attributable { source := i, name := s.name i, target := c
                                                   text := broadcastOf name message ++ js "\n"
                                                   isReply := false } ↔
      10 ∉ name ∧ ∀ line ∈ (split (js "\n") message).tail, name ++ js ":" <+: line := by
    intro c
    rw [← attributable_iff hname hne hmessage]
    unfold Written.Attributable
    dsimp only
    rw [linesOf_newline, hclient]
    simp
  have hforges : ∀ c, Written.Forges { source := i, name := s.name i, target := c
                                       text := broadcastOf name message ++ js "\n"
                                       isReply := false } ↔
      c ≠ i ∧ ∃ line ∈ split (js "\n") (broadcastOf name message), js "Server: " <+: line := by
    intro c
    unfold Written.Forges
    dsimp only
    rw [linesOf_newline]
  show (∀ w ∈ s.written ++ s.clients.map _, _) ↔ _
  rw [List.forall_mem_append, List.forall_mem_map]
  refine and_congr_right fun _ => ?_
  constructor
  · intro h
    -- the sender gets its own message too, and need not be told apart there
    obtain ⟨hline, htail⟩ := (hattributable i).mp (h i hlisted).1
    refine ⟨hline, htail, ?_⟩
    by_cases halone : ∀ c ∈ s.clients, c = i
    · exact .inl halone
    · -- somebody else reads it
      obtain ⟨c, hc, hother⟩ : ∃ c ∈ s.clients, c ≠ i := by simpa using halone
      have hno := (h c hc).2
      rw [hforges, forges_iff hname hne hmessage hline htail] at hno
      exact .inr fun hserver => hno ⟨hother, hserver⟩
  · intro h c hc
    refine ⟨(hattributable c).mpr ⟨h.line, h.lines⟩, ?_⟩
    rw [hforges, forges_iff hname hne hmessage h.line h.lines]
    rintro ⟨hother, hserver⟩
    rcases h.own with halone | hown
    · exact hother (halone c hc)
    · exact hown hserver

/-- An event leaves the lines in order exactly if they were, and the event is honest. -/
theorem Step.keeps_linesOk (hstep : Step maxNameLength s e t) (hnames : NamesTrimmed s)
    (hinv : Inv s) : LinesOk t ↔ LinesOk s ∧ Honest s e := by
  obtain ⟨-, hcases⟩ := hstep.cases
  rcases hcases with ⟨rfl, rfl⟩ | ⟨i, data, rfl, hopen, rfl⟩ | ⟨i, rfl, -, rfl⟩ |
    ⟨i, rfl, -, rfl⟩ | ⟨i, rfl, -, rfl⟩
  · exact (and_iff_left trivial).symm
  · rcases receive_cases maxNameLength (s.name i) data with
      ⟨name, text, heq, htext, -, hwhy⟩ | ⟨name, hclient, hprefix, heq⟩
    · rw [heq, linesOk_reply htext]
      refine (and_iff_left ?_).symm
      -- a client without a name broadcasts nothing
      rcases hwhy with hrename | hnone | hempty
      · exact .inl hrename
      · refine .inr fun name hname => ?_
        rw [hnone] at hname
        cases hname
      · exact absurd rfl (hnames i [] hempty).1
    · obtain ⟨hne, htrimmed⟩ := hnames i name hclient
      have hlisted : i ∈ s.clients := (hinv.listed i).mpr hopen
      have hmessage : Trimmed (messageOf data) := trimmed_trim _
      rw [heq, linesOk_broadcast hclient htrimmed hne hmessage hlisted]
      refine and_congr_right fun _ => ?_
      constructor
      · refine fun hkeeps => .inr fun name' hname' => ?_
        rw [hclient] at hname'
        rwa [← Option.some.inj hname']
      · exact fun hhonest => (hhonest.resolve_left hprefix) name hclient
  · exact (and_iff_left trivial).symm
  · exact (and_iff_left trivial).symm
  · exact (and_iff_left trivial).symm

end Event

/-! ## Runs -/

/-- **Whose lines are they**: in every run of any number of clients, all lines that are
written are the server's answers or begin with the name of their sender, and none of them
looks like the server's to somebody else, exactly if every event of the run is honest. -/
theorem linesOk_iff {maxNameLength : Option ℤ} {events : List Event} {s : System}
    (hrun : Run (Step maxNameLength) System.init events s) :
    LinesOk s ↔ Run (Guarded Honest (Step maxNameLength)) System.init events s := by
  -- the names and the list of clients are as they should be before every event
  have hstep : ∀ ls t e u, Run (Step maxNameLength) System.init ls t → Step maxNameLength t e u →
      (LinesOk u ↔ LinesOk t ∧ Honest t e) := by
    intro ls t e u ht hu
    have hinv := run_inv ht (run_no_error ht hu.cases.1)
    exact hu.keeps_linesOk (run_namesTrimmed ht) hinv
  constructor
  · intro h
    refine Run.guarded_of_final LinesOk ?_ hrun h
    exact fun ls t e u ht hu hlines => (hstep ls t e u ht hu).mp hlines
  · intro h
    induction h with
    | nil => exact fun w hw => absurd hw List.not_mem_nil
    | snoc hguarded hlast ih =>
      have ht := hguarded.unguarded
      exact (hstep _ _ _ _ ht hlast.2).mpr ⟨ih ht, hlast.1⟩

/-- The bytes of a text in ASCII. -/
def ascii (s : String) : List UInt8 := s.toList.map fun c => c.toNat.toUInt8

/-- Two clients; the first one is called `eve` and sends two lines at once, the second of which
has her name in front. -/
def namedLines : List Event :=
  [.connection, .connection, .data 0 (ascii "/rename eve"), .data 0 (ascii "hi\neve: bye")]

/-- Both clients get the two lines, and all lines are in order. -/
theorem linesOk_iff_namedLines :
    ∃ s, Run (Step (some 50)) System.init namedLines s ∧
      (∀ target ∈ [0, 1], { source := 0, name := some (js "eve"), target := target
                            text := js "eve: hi\neve: bye\n", isReply := false } ∈ s.written) ∧
      LinesOk s := by
  obtain ⟨s, hs, hwritten⟩ : ∃ s, System.after (some 50) namedLines = some s ∧
      ∀ target ∈ [0, 1], { source := 0, name := some (js "eve"), target := target
                           text := js "eve: hi\neve: bye\n", isReply := false } ∈ s.written :=
    ⟨_, rfl, by decide⟩
  have hrun := run_of_after hs
  exact ⟨s, hrun, hwritten,
    (linesOk_iff hrun).mpr (hrun.guarded_of_foldlM (by decide +kernel))⟩

/-- Two clients; the first one is called `eve` and sends two lines at once. -/
def twoLines : List Event :=
  [.connection, .connection, .data 0 (ascii "/rename eve"), .data 0 (ascii "hi\nServer: bye")]

/-- What the second client gets. -/
def forgedText : Written where
  source := 0
  name := some (js "eve")
  target := 1
  text := js "eve: hi\nServer: bye\n"
  isReply := false

/-- It reads a line that looks like the server's. -/
theorem not_linesOk_twoLines :
    ∃ s, Run (Step (some 50)) System.init twoLines s ∧ forgedText ∈ s.written ∧
      ¬forgedText.Attributable ∧ forgedText.Forges ∧ ¬LinesOk s := by
  have hline : js "Server: bye" ∈ linesOf forgedText.text := by decide
  have hforges : forgedText.Forges := ⟨by decide, _, hline, by decide⟩
  have hnot : ¬forgedText.Attributable := by
    intro h
    rcases h _ hline with ⟨hreply, -, -⟩ | ⟨name, hname, hprefix⟩
    · cases hreply
    · obtain rfl := Option.some.inj hname
      exact absurd hprefix (by decide)
  obtain ⟨s, hs, hmem⟩ : ∃ s, System.after (some 50) twoLines = some s ∧ forgedText ∈ s.written :=
    ⟨_, rfl, by decide⟩
  exact ⟨s, run_of_after hs, hmem, hnot, hforges, fun h => hnot (h _ hmem).1⟩

end NetworkServers.SocketChat
