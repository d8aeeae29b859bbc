import NetworkServers.Phase2.ChatHistory

/-!
# Markup in the Chat Page

The chat page holds a line for every record of the history. The angle brackets of a
message are replaced, those of the user name are not: a page without foreign markup needs
names without angle brackets, and registration accepts names with them.
-/

namespace NetworkServers.Phase2

open NetworkServers.Js NetworkServers.Runs

/-! ## Angle brackets -/

/-- The angle brackets of a text, in order. -/
def brackets (text : JsString) : JsString := text.filter fun c => c = 60 ∨ c = 62

/-- The tags around the parts of a record. -/
def recordTags : JsString := js "<div><b></b></div>"

/-- What `chatroom` substitutes for `chats`. -/
def chatsText (p : Platform) (chats : List ChatData) : JsString :=
  (js "\n").intercalate (chats.map (chatLine p))

/-- **No foreign markup**: the angle brackets of the page are those of the tags around each
record. -/
def OnlyTags (p : Platform) (chats : List ChatData) : Prop :=
  brackets (chatsText p chats) = chats.flatMap fun _ => brackets recordTags

/-- The dates that the page shows have no angle brackets. -/
def PlainDates (p : Platform) : Prop := ∀ timestamp, brackets (p.toLocaleString timestamp) = []

section Lines

variable {p : Platform}

theorem brackets_append (a b : JsString) : brackets (a ++ b) = brackets a ++ brackets b :=
  List.filter_append a b

/-- This is the text in the page. -/
theorem serveChat_get {router : Router} {ctx : HTTPContext} (hget : ctx.method = js "GET")
    (u : UserData) (env : Env) (s : Store) :
    (serveChat p router ctx u).run env s =
      (match router.renderStatic p ctx.path.pathname
          (Dict.empty.set (js "chats") (chatsText p s.chats)) with
        | some html => if html = [] then notFound else do
            writeHeaders 200 [(js "Content-Type", js "text/html")]
            writeText html
            endBody
            return .done
        | none => notFound).run env s := by
  unfold serveChat
  rw [if_pos hget, Prog.run_bind]
  rfl

/-- Both angle brackets of a message are replaced. -/
theorem brackets_escape (message : JsString) :
    brackets (replaceChar 62 (js "&gt;") (replaceChar 60 (js "&lt;") message)) = [] := by
  -- the second replacement finds a text without `<` and puts none in
  have hless : 60 ∉ replaceChar 60 (js "&lt;") message := by
    intro hmem
    obtain ⟨c, -, hc⟩ := List.mem_flatMap.mp hmem
    split at hc
    · exact absurd hc (by decide)
    · rename_i hne
      exact hne (List.mem_singleton.mp hc).symm
  unfold brackets
  rw [List.filter_eq_nil_iff]
  intro c hc hbracket
  obtain ⟨d, hd, hcd⟩ := List.mem_flatMap.mp hc
  split at hcd
  · have hgt : brackets (js "&gt;") = [] := by decide
    have hmem : c ∈ brackets (js "&gt;") := List.mem_filter.mpr ⟨hcd, hbracket⟩
    rw [hgt] at hmem
    exact absurd hmem List.not_mem_nil
  · rename_i hne
    obtain rfl := List.mem_singleton.mp hcd
    rcases of_decide_eq_true hbracket with rfl | rfl
    · exact hless hd
    · exact hne rfl

/-- The angle brackets of a line: those of the user name stand between the tags. -/
theorem brackets_chatLine (hdates : PlainDates p) (c : ChatData) :
    brackets (chatLine p c) =
      brackets (js "<div><b>") ++ brackets (display c.user) ++ brackets (js "</b></div>") := by
  unfold chatLine
  simp only [brackets_append, brackets_escape, hdates c.timestamp, List.append_assoc]
  rfl

theorem length_brackets_chatLine (hdates : PlainDates p) (c : ChatData) :
    (brackets (chatLine p c)).length =
      (brackets recordTags).length + (brackets (display c.user)).length := by
  rw [brackets_chatLine hdates, List.length_append, List.length_append, Nat.add_right_comm]
  rfl

theorem brackets_chatsText (chats : List ChatData) :
    brackets (chatsText p chats) = chats.flatMap fun c => brackets (chatLine p c) := by
  unfold chatsText
  induction chats with
  | nil => rfl
  | cons c chats ih =>
    cases chats with
    | nil => simp
    | cons d chats =>
      rw [List.map_cons, List.map_cons, List.intercalate_cons_cons, brackets_append,
        brackets_append, ← List.map_cons, ih, List.flatMap_cons (x := c), List.append_assoc]
      rfl

/-- Every angle bracket in a user name is one too many. -/
theorem length_brackets_chatsText (hdates : PlainDates p) (chats : List ChatData) :
    (brackets (chatsText p chats)).length =
      (chats.flatMap fun _ => brackets recordTags).length +
        (chats.map fun c => (brackets (display c.user)).length).sum := by
  rw [brackets_chatsText]
  induction chats with
  | nil => rfl
  | cons c chats ih =>
    rw [List.flatMap_cons, List.flatMap_cons, List.length_append, List.length_append, ih,
      length_brackets_chatLine hdates, List.map_cons, List.sum_cons]
    omega

/-- **The page is clean** exactly if the user names are. -/
theorem onlyTags_iff (hdates : PlainDates p) (chats : List ChatData) :
    OnlyTags p chats ↔ ∀ c ∈ chats, brackets (display c.user) = [] := by
  constructor
  · intro h c hc
    have hlength := length_brackets_chatsText hdates chats
    rw [show brackets (chatsText p chats) = _ from h] at hlength
    have hsum : (chats.map fun c => (brackets (display c.user)).length).sum = 0 :=
      Nat.add_left_cancel hlength.symm
    have hzero := List.sum_eq_zero_iff.mp hsum
    exact List.length_eq_zero_iff.mp (hzero _ (List.mem_map_of_mem hc))
  · intro h
    rw [OnlyTags, brackets_chatsText]
    apply List.flatMap_congr
    intro c hc
    rw [brackets_chatLine hdates, h c hc]
    rfl

end Lines

/-! ## Histories -/

/-- A message is posted under a name with angle brackets. -/
def PostsMarkup (p : Platform) (s : Process) : ChatEvent → Prop
  | .handler (.request text _) => ∃ ctx u message,
      PostRequest p s.store.users text ctx u message ∧ brackets (display u.id) ≠ []
  | _ => False

section Histories

variable {p : Platform} {s t : Process} {l : ChatEvent} {ls : List ChatEvent}

/-- A step keeps the page clean exactly if it posts no message under such a name. -/
theorem onlyTags_step (hdates : PlainDates p) (hstep : ChatSteps p s l t) :
    OnlyTags p t.store.chats ↔ OnlyTags p s.store.chats ∧ ¬PostsMarkup p s l := by
  simp only [onlyTags_iff hdates]
  have hafter := chatsAfter hstep
  generalize t.store.chats = chats at hafter ⊢
  cases hafter with
  | posted h =>
    rw [List.forall_mem_append, List.forall_mem_singleton]
    refine and_congr_right fun _ => ?_
    constructor
    · rintro hname ⟨ctx, u, message, hpost, hmarkup⟩
      obtain rfl := Option.some.inj (h.parsed.symm.trans hpost.parsed)
      obtain rfl := Option.some.inj (h.found.symm.trans hpost.found)
      exact hmarkup hname
    · intro hposts
      exact by_contra fun hmarkup => hposts ⟨_, _, _, h, hmarkup⟩
  | request h =>
    exact (and_iff_left fun ⟨ctx, u, message, hpost, _⟩ => h ctx u message hpost).symm
  | resume => exact (and_iff_left id).symm
  | gptReply =>
    rw [List.forall_mem_append, List.forall_mem_singleton]
    exact and_congr_right fun _ => iff_of_true rfl id

/-- **No markup injection**: after a run the page is clean exactly if no message has been
posted under a name with angle brackets. -/
theorem onlyTags_iff_guarded (hdates : PlainDates p) (hrun : ChatReaches p ls s) :
    OnlyTags p s.store.chats ↔
      Run (Guarded (fun s l => ¬PostsMarkup p s l) (ChatSteps p)) Process.initial ls s := by
  constructor
  · -- a tag on the page stays there, so each step has kept the page clean
    intro hclean
    apply Run.guarded_of_final (fun s => OnlyTags p s.store.chats) _ hrun hclean
    exact fun _ _ _ _ _ hstep hclean => (onlyTags_step hdates hstep).mp hclean
  · intro hguarded
    clear hrun
    induction hguarded with
    | nil => rfl
    | snoc _ hstep ih => exact (onlyTags_step hdates hstep.2).mpr ⟨ih, hstep.1⟩

end Histories

/-! ## A name with a tag -/

theorem plainDates_sample : PlainDates samplePlatform := fun _ => by
  show brackets (js "1/1/2024, 12:00:00 AM") = []
  decide

/-- The run of a user who registers, logs in and posts a message. -/
def postsAs (name : String) : List ChatEvent :=
  let form := js "username=" ++ js name ++ js "&password=password1"
  [.handler (.request (sampleRequest "POST" "/register" [] form) sampleEnv),
    .handler (.resume 0 sampleEnv false),
    .handler (.request (sampleRequest "POST" "/login" [] form) sampleEnv),
    .handler (.resume 0 sampleEnv false),
    .handler (.request (sampleRequest "POST" "/chat"
      (js "user=" ++ js name ++ js "; token=" ++ tokenOf sampleUuid) (js "message=hi")) sampleEnv)]

/-- The state after the run. -/
def postedAs (name : String)
    (h : ((postsAs name).foldlM (Process.chatStep samplePlatform) Process.initial).isSome) : Process :=
  ((postsAs name).foldlM (Process.chatStep samplePlatform) Process.initial).get h

theorem reaches_postedAs (name : String)
    (h : ((postsAs name).foldlM (Process.chatStep samplePlatform) Process.initial).isSome) :
    ChatReaches samplePlatform (postsAs name) (postedAs name h) :=
  Run.of_foldlM (Option.some_get h).symm

theorem postsAs_bob_isSome :
    ((postsAs "bob").foldlM (Process.chatStep samplePlatform) Process.initial).isSome := by
  decide +kernel

theorem postsAs_tag_isSome :
    ((postsAs "<b>").foldlM (Process.chatStep samplePlatform) Process.initial).isSome := by
  decide +kernel

/-- Bob may post. -/
theorem onlyTags_iff_guarded_bob :
    OnlyTags samplePlatform (postedAs "bob" postsAs_bob_isSome).store.chats ∧
    Run (Guarded (fun s l => ¬PostsMarkup samplePlatform s l) (ChatSteps samplePlatform))
      Process.initial (postsAs "bob") (postedAs "bob" postsAs_bob_isSome) := by
  have hclean : OnlyTags samplePlatform (postedAs "bob" postsAs_bob_isSome).store.chats := by
    unfold OnlyTags
    decide +kernel
  exact ⟨hclean,
    (onlyTags_iff_guarded plainDates_sample (reaches_postedAs "bob" postsAs_bob_isSome)).mp hclean⟩

/-- A user whose name is a tag puts it into the page. -/
theorem not_onlyTags_tag : ¬∀ (p : Platform) (ls : List ChatEvent) (s : Process),
    PlainDates p → ChatReaches p ls s → OnlyTags p s.store.chats := by
  intro h
  have hclean := h _ _ _ plainDates_sample (reaches_postedAs "<b>" postsAs_tag_isSome)
  unfold OnlyTags at hclean
  revert hclean
  decide +kernel

end NetworkServers.Phase2
