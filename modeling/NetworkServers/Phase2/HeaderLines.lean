import NetworkServers.Library.Splitting
import NetworkServers.Library.Utf8Encoding
import NetworkServers.Phase2.Sessions
import NetworkServers.Phase2.Wire

/-!
# Header Lines

No handler writes a header with a line end in it, so that each header block has the lines
that it should have, with one exception: `login` echoes the name of the user in a cookie,
and a name may hold any text that `register` has accepted.
-/

namespace NetworkServers.Phase2

open NetworkServers.Js NetworkServers.HttpMessage NetworkServers.Runs
open Prog (require)

/-! ## The calls of a program -/

/-- Whatever its reads return, a program makes only calls that `P` allows, and `Q` holds of
what it ends with. -/
def Prog.Calls {α : Type} (P : Call → Prop) (Q : α → Prop) : Prog α → Prop
  | .pure a => Q a
  | .throw => True
  | .getUser _ k => ∀ u, (k u).Calls P Q
  | .setUser _ _ k => k.Calls P Q
  | .getChat k => ∀ chats, (k chats).Calls P Q
  | .addChat _ k => k.Calls P Q
  | .randomUUID k => ∀ uuid, (k uuid).Calls P Q
  | .now k => ∀ time, (k time).Calls P Q
  | .call c k => P c ∧ k.Calls P Q
  | .startGpt k => k.Calls P Q

section Calls

variable {α β : Type} {P : Call → Prop} {Q : α → Prop}

@[simp] theorem calls_bind {prog : Prog β} {f : β → Prog α} :
    (prog >>= f).Calls P Q ↔ prog.Calls P fun b => (f b).Calls P Q := by
  change (prog.bind f).Calls P Q ↔ _
  induction prog with
  | pure b | throw => exact Iff.rfl
  | getUser id k ih => exact forall_congr' ih
  | getChat k ih => exact forall_congr' ih
  | now k ih => exact forall_congr' ih
  | randomUUID k ih => exact forall_congr' ih
  | call c k ih => exact and_congr_right fun _ => ih
  | setUser id user k ih | addChat chat k ih | startGpt k ih => exact ih

@[simp] theorem calls_pure {a : α} : (pure a : Prog α).Calls P Q ↔ Q a := Iff.rfl

@[simp] theorem calls_require {o : Option α} :
    (require o).Calls P Q ↔ ∀ a, o = some a → Q a := by
  cases o with
  | none => exact iff_of_true trivial fun a h => nomatch h
  | some a => exact ⟨fun h b hb => Option.some.inj hb ▸ h, fun h => h a rfl⟩

@[simp] theorem calls_userGet {id : Option JsString} {Q : Option UserData → Prop} :
    (userGet id).Calls P Q ↔ ∀ u, Q u := Iff.rfl

@[simp] theorem calls_userSet {id : Option JsString} {user : UserPatch} {Q : Unit → Prop} :
    (userSet id user).Calls P Q ↔ Q () := Iff.rfl

@[simp] theorem calls_chatGet {Q : List ChatData → Prop} :
    chatGet.Calls P Q ↔ ∀ chats, Q chats := Iff.rfl

@[simp] theorem calls_chatAdd {chat : ChatData} {Q : Unit → Prop} :
    (chatAdd chat).Calls P Q ↔ Q () := Iff.rfl

@[simp] theorem calls_randomUUID {Q : Uuid → Prop} :
    randomUUID.Calls P Q ↔ ∀ uuid, Q uuid := Iff.rfl

@[simp] theorem calls_dateNow {Q : ℕ → Prop} : dateNow.Calls P Q ↔ ∀ time, Q time := Iff.rfl

@[simp] theorem calls_startGpt {Q : Unit → Prop} : startGpt.Calls P Q ↔ Q () := Iff.rfl

@[simp] theorem calls_writeHeaders {status : ℕ} {headers : List (JsString × JsString)}
    {Q : Unit → Prop} :
    (writeHeaders status headers).Calls P Q ↔ P (.writeHeaders status headers) ∧ Q () := Iff.rfl

@[simp] theorem calls_writeBody {data : List UInt8} {Q : Unit → Prop} :
    (writeBody data).Calls P Q ↔ P (.writeBody data) ∧ Q () := Iff.rfl

@[simp] theorem calls_writeText {text : JsString} {Q : Unit → Prop} :
    (writeText text).Calls P Q ↔ P (.writeBody (utf8Encode text)) ∧ Q () := Iff.rfl

@[simp] theorem calls_endBody {Q : Unit → Prop} : endBody.Calls P Q ↔ P .endBody ∧ Q () := Iff.rfl

/-- **What a run calls**, to its end or until it throws, is allowed. -/
theorem Prog.Calls.of_run {prog : Prog α} (h : prog.Calls P Q) (env : Env) (s : Store) {c : Call}
    (hc : Effect.call c ∈ (prog.run env s).effects) : P c := by
  induction prog generalizing s with
  | pure a | throw => exact absurd hc List.not_mem_nil
  | getUser id k ih => exact ih _ (h _) s hc
  | getChat k ih => exact ih _ (h _) s hc
  | now k ih => exact ih _ (h _) s hc
  | call c' k ih =>
    rcases List.mem_cons.mp hc with heq | hc
    · exact Effect.call.inj heq ▸ h.1
    · exact ih h.2 s hc
  -- other effects are no calls
  | setUser id user k ih | addChat chat k ih | startGpt k ih =>
    exact ih h _ ((List.mem_cons.mp hc).resolve_left (fun heq => nomatch heq))
  | randomUUID k ih =>
    exact ih _ (h _) s ((List.mem_cons.mp hc).resolve_left (fun heq => nomatch heq))

end Calls

/-! ## Clean headers -/

/-- Text without a carriage return and without a line feed. -/
def OneLine (text : JsString) : Prop := 13 ∉ text ∧ 10 ∉ text

instance (text : JsString) : Decidable (OneLine text) := inferInstanceAs (Decidable (_ ∧ _))

/-- A header pair that cannot end its line. -/
def CleanHeader (header : JsString × JsString) : Prop := OneLine header.1 ∧ OneLine header.2

instance (header : JsString × JsString) : Decidable (CleanHeader header) :=
  inferInstanceAs (Decidable (_ ∧ _))

/-- A call all of whose headers are clean. -/
def CleanCall : Call → Prop
  | .writeHeaders _ headers => ∀ header ∈ headers, CleanHeader header
  | _ => True

theorem oneLine_append {a b : JsString} : OneLine (a ++ b) ↔ OneLine a ∧ OneLine b := by
  simp only [OneLine, List.mem_append, not_or]
  exact and_and_and_comm

/-- The headers with a content type. -/
theorem cleanCall_contentType {status : ℕ} {value : JsString} (hvalue : OneLine value) :
    CleanCall (.writeHeaders status [(js "Content-Type", value)]) := by
  have hkey : OneLine (js "Content-Type") := by decide
  have hheader : CleanHeader (js "Content-Type", value) := ⟨hkey, hvalue⟩
  exact List.forall_mem_singleton.mpr hheader

theorem cleanCall_redirect {url : JsString} {headers : List (JsString × JsString)}
    (hurl : OneLine url) (hheaders : ∀ header ∈ headers, CleanHeader header) :
    CleanCall (.writeHeaders 302 ((js "Location", url) :: headers)) := by
  have hkey : OneLine (js "Location") := by decide
  have hlocation : CleanHeader (js "Location", url) := ⟨hkey, hurl⟩
  exact List.forall_mem_cons.mpr ⟨hlocation, hheaders⟩

theorem oneLine_contentType (extension : JsString) : OneLine (contentType extension) := by
  have hite : ∀ {c : Prop} [Decidable c] {a b : JsString}, OneLine a → OneLine b →
      OneLine (if c then a else b) := by
    intro c _ a b ha hb
    split
    · exact ha
    · exact hb
  unfold contentType
  repeat' apply hite
  all_goals decide

/-- A token is made of hexadecimal digits. -/
theorem oneLine_tokenOf (uuid : Uuid) : OneLine (tokenOf uuid) := by
  constructor
  · exact fun h => absurd (mem_hexEncode h).1 (by decide)
  · exact fun h => absurd (mem_hexEncode h).1 (by decide)

theorem cleanHeaders_clearCookies : ∀ header ∈ clearCookies, CleanHeader header := by decide

/-- The cookies of a session are clean if the name of the user is. -/
theorem cleanHeaders_sessionCookies {username : Option JsString} (uuid : Uuid) :
    (∀ header ∈ sessionCookies username (tokenOf uuid), CleanHeader header) ↔
      OneLine (display username) := by
  have hkey : OneLine (js "Set-Cookie") := by decide
  have huser : OneLine (js "user=") := by decide
  have htoken : OneLine (js "token=") := by decide
  have hrest : OneLine (js "; Path=/; HttpOnly") := by decide
  simp only [sessionCookies, List.forall_mem_cons, CleanHeader, oneLine_append, hkey, huser, htoken,
    hrest, oneLine_tokenOf, List.not_mem_nil, IsEmpty.forall_iff, implies_true, and_true, true_and]

/-! ## The handlers -/

section Handlers

variable {p : Platform} {router : Router} {ctx : HTTPContext}

theorem redirect_clean {url : JsString} {headers : List (JsString × JsString)} (hurl : OneLine url)
    (hheaders : ∀ header ∈ headers, CleanHeader header) :
    (redirect url headers).Calls CleanCall fun _ => True := by
  simp only [redirect, calls_bind, calls_writeHeaders, calls_endBody, calls_pure]
  exact ⟨cleanCall_redirect hurl hheaders, trivial, trivial⟩

/-- A redirect without further headers. -/
theorem redirect_clean_nil {url : JsString} (hurl : OneLine url) :
    (redirect url).Calls CleanCall fun _ => True :=
  redirect_clean hurl fun _ h => absurd h List.not_mem_nil

theorem notFound_clean : notFound.Calls CleanCall fun _ => True := by
  simp only [notFound, calls_bind, calls_writeHeaders, calls_writeText, calls_endBody, calls_pure]
  exact ⟨cleanCall_contentType (by decide), trivial, trivial, trivial⟩

theorem serveStatic_clean (path : JsString) :
    (router.serveStatic p path).Calls CleanCall fun _ => True := by
  unfold Router.serveStatic
  dsimp only
  split
  · simp only [calls_bind, calls_writeHeaders, calls_writeText, calls_endBody, calls_pure]
    exact ⟨cleanCall_contentType (by decide), trivial, trivial, trivial⟩
  split
  · split
    · simp only [calls_bind, calls_writeHeaders, calls_writeText, calls_endBody, calls_pure]
      exact ⟨cleanCall_contentType (by decide), trivial, trivial, trivial⟩
    · simp only [calls_bind, calls_writeHeaders, calls_pure]
      exact ⟨cleanCall_contentType (oneLine_contentType _), trivial⟩
  · exact notFound_clean

theorem streamNext_clean (chunks : List (List UInt8)) :
    (streamNext chunks).Calls CleanCall fun _ => True := by
  cases chunks with
  | nil => exact ⟨trivial, trivial⟩
  | cons chunk chunks => exact ⟨trivial, trivial⟩

theorem register_clean : (register p router ctx).Calls CleanCall fun _ => True := by
  simp only [register, calls_bind, calls_userGet]
  intro found
  split
  · exact redirect_clean_nil (by decide)
  split
  · exact serveStatic_clean _
  split
  · simp only [calls_bind, calls_require]
    intro username _
    split
    · exact redirect_clean_nil (by decide)
    simp only [calls_bind, calls_require]
    intro password _
    split
    · exact redirect_clean_nil (by decide)
    split
    · exact redirect_clean_nil (by decide)
    simp only [calls_bind, calls_userGet]
    intro taken
    split
    · exact redirect_clean_nil (by decide)
    · trivial
  · exact notFound_clean

theorem login_clean : (login p router ctx).Calls CleanCall fun _ => True := by
  simp only [login, calls_bind, calls_userGet]
  intro found
  split
  · exact redirect_clean_nil (by decide)
  split
  · exact serveStatic_clean _
  split
  · simp only [calls_bind, calls_userGet]
    intro u
    split
    · exact redirect_clean_nil (by decide)
    · simp only [calls_bind, calls_require]
      exact fun _ _ => trivial
  · exact notFound_clean

theorem logout_clean : (logout ctx).Calls CleanCall fun _ => True := by
  have hredirect := redirect_clean (by decide : OneLine (js "/login")) cleanHeaders_clearCookies
  simp only [logout, calls_bind, calls_userGet]
  intro found
  split
  · split
    · simpa only [calls_bind, calls_userSet] using hredirect
    · exact hredirect
  · exact hredirect

theorem withSession_clean {serve : UserData → Prog Next}
    (hserve : ∀ u, (serve u).Calls CleanCall fun _ => True) :
    (withSession ctx serve).Calls CleanCall fun _ => True := by
  simp only [withSession, calls_bind, calls_userGet]
  intro found
  split
  · exact redirect_clean_nil (by decide)
  · split
    · exact redirect_clean (by decide) cleanHeaders_clearCookies
    · exact hserve _

theorem serveChat_clean (u : UserData) :
    (serveChat p router ctx u).Calls CleanCall fun _ => True := by
  unfold serveChat
  split
  · simp only [calls_bind, calls_chatGet]
    intro chats
    split
    · split
      · exact notFound_clean
      · simp only [calls_bind, calls_writeHeaders, calls_writeText, calls_endBody, calls_pure]
        exact ⟨cleanCall_contentType (by decide), trivial, trivial, trivial⟩
    · exact notFound_clean
  split
  · simp only [calls_bind, calls_require, calls_dateNow, calls_chatAdd]
    intro message _ time
    split
    · simpa only [calls_bind, calls_startGpt] using redirect_clean_nil (by decide)
    · exact redirect_clean_nil (by decide)
  · trivial

theorem serveChatStatus_clean (u : UserData) :
    (serveChatStatus ctx u).Calls CleanCall fun _ => True := by
  unfold serveChatStatus
  split
  · exact fun _ => trivial
  · exact notFound_clean

theorem changedNext_clean (size : ℕ) : (changedNext size).Calls CleanCall fun _ => True := by
  simp only [changedNext, calls_bind, calls_chatGet, calls_writeHeaders, calls_endBody, calls_pure]
  exact fun _ => ⟨fun _ h => absurd h List.not_mem_nil, trivial, trivial⟩

theorem reflect_clean : (reflect p ctx).Calls CleanCall fun _ => True := by
  simp only [reflect, calls_bind, calls_writeHeaders, calls_require, calls_writeText,
    calls_endBody, calls_pure]
  exact ⟨cleanCall_contentType (by decide), fun _ _ => ⟨trivial, trivial, trivial⟩⟩

theorem computeSqrt_clean : (computeSqrt p).Calls CleanCall fun _ => True := by
  simp only [computeSqrt, calls_bind, calls_writeHeaders, calls_writeText, calls_endBody, calls_pure]
  exact ⟨cleanCall_contentType (by decide), trivial, trivial, trivial⟩

theorem registerDigest_clean (username password : JsString) :
    (registerDigest p username password).Calls CleanCall fun _ => True := by
  simpa only [registerDigest, calls_bind, calls_userSet] using redirect_clean_nil (by decide)

/-- **Requests** start with clean headers, whatever they are. -/
theorem handle_clean (text : JsString) : (handle p text).Calls CleanCall fun _ => True := by
  simp only [handle, calls_bind, calls_require]
  intro ctx _ router _
  unfold Router.handle
  split
  · rename_i route _
    cases route with
    | reflect => exact reflect_clean
    | computeSqrt => exact computeSqrt_clean
    | register => exact register_clean
    | login => exact login_clean
    | logout => exact logout_clean
    | chatroom => exact withSession_clean serveChat_clean
    | chatStatus => exact withSession_clean serveChatStatus_clean
  · exact serveStatic_clean _

end Handlers

/-! ## Names that are echoed -/

/-- What a handler waits for is no login that will succeed under a name with a line end. -/
def Await.OneLineName (p : Platform) : Await → Prop
  | .login username password u =>
    u.password = some (passwordHash p password) → OneLine (display username)
  | _ => True

instance (p : Platform) : (a : Await) → Decidable (a.OneLineName p)
  | .login username _ u => inferInstanceAs (Decidable (u.password = some _ → OneLine (display username)))
  | .register _ _ | .stream _ | .changed _ => .isTrue trivial

/-- With such a name excepted, the rest of a handler writes clean headers. -/
theorem resume_clean {p : Platform} {a : Await} (h : a.OneLineName p) :
    (a.resume p).Calls CleanCall fun _ => True := by
  cases a with
  | register username password => exact registerDigest_clean username password
  | login username password u =>
    simp only [Await.resume, loginDigest]
    split
    · exact redirect_clean_nil (by decide)
    · rename_i hpassword
      simp only [calls_bind, calls_randomUUID, calls_userSet]
      intro uuid
      apply redirect_clean (by decide)
      exact (cleanHeaders_sessionCookies uuid).mpr (h (not_not.mp hpassword))
  | stream chunks => exact streamNext_clean chunks
  | changed size => exact changedNext_clean size

/-- Clean headers after the digest of `login` tell that the name was one line. -/
theorem oneLineName_of_clean {p : Platform} {a : Await} (env : Env) (s : Store)
    (h : ∀ c, Effect.call c ∈ ((a.resume p).run env s).effects → CleanCall c) :
    a.OneLineName p := by
  cases a with
  | login username password u =>
    intro hpassword
    have hrun : Effect.call (.writeHeaders 302
        ((js "Location", js "/chat") :: sessionCookies username (tokenOf env.uuid))) ∈
          ((loginDigest p username password u).run env s).effects := by
      rw [loginDigest, if_neg (not_not.mpr hpassword)]
      simp [Prog.run_bind, redirectCalls, responseCalls, Outcome.after]
    have hheaders := (List.forall_mem_cons.mp (h _ hrun)).2
    exact (cleanHeaders_sessionCookies env.uuid).mp hheaders
  | register username password => trivial
  | stream chunks => trivial
  | changed size => trivial

/-! ## Header blocks -/

/-- The lines of a header block: the status line, those of the server, one for each header,
and the empty one that ends the block, with nothing behind it. -/
def blockLines (date : UTCString) (status : ℕ) (headers : List (JsString × JsString)) :
    List (List UInt8) :=
  (utf8Encode (js "HTTP/1.1 ") ++ numeral 10 status) ::
    (serverLines date).map utf8Encode ++ headers.map (fun header => utf8Encode (headerLine header)) ++
      [[], []]

/-- A block with clean headers has the lines that it should have. -/
theorem split_block {date : UTCString} {status : ℕ} {headers : List (JsString × JsString)}
    (h : CleanCall (.writeHeaders status headers)) :
    split crlf ((Call.writeHeaders status headers).bytes date) = blockLines date status headers := by
  have hline : ∀ text : JsString, 13 ∉ text → (13 : UInt8) ∉ utf8Encode text := fun text h hmem =>
    h (mem_of_mem_utf8Encode hmem (by decide))
  have hstatus : (13 : UInt8) ∉ utf8Encode (js "HTTP/1.1 ") ++ numeral 10 status := by
    rw [List.mem_append, not_or]
    refine ⟨hline _ (by decide), fun hmem => ?_⟩
    exact absurd (digitValue_isSome_of_mem_numeral (by decide) (by decide) hmem) (by decide)
  have hserver : ∀ line ∈ (serverLines date).map utf8Encode, (13 : UInt8) ∉ line := by
    simp only [serverLines, List.map_cons, List.map_nil, List.forall_mem_cons]
    refine ⟨hline _ ?_, hline _ (by decide), hline _ (by decide), hline _ (by decide),
      hline _ (by decide), fun _ h => absurd h List.not_mem_nil⟩
    rw [List.mem_append, not_or]
    exact ⟨by decide, date.oneLine⟩
  have hheaders : ∀ line ∈ headers.map fun header => utf8Encode (headerLine header),
      (13 : UInt8) ∉ line := by
    intro line hmem
    obtain ⟨header, hheader, rfl⟩ := List.mem_map.mp hmem
    obtain ⟨⟨hkey, -⟩, hvalue, -⟩ := h header hheader
    apply hline
    rw [headerLine, List.mem_append, List.mem_append, not_or, not_or]
    exact ⟨⟨hkey, by decide⟩, hvalue⟩
  -- the block is its lines, each with CRLF behind it
  have hblock : (Call.writeHeaders status headers).bytes date =
      ((utf8Encode (js "HTTP/1.1 ") ++ numeral 10 status) :: (serverLines date).map utf8Encode ++
        headers.map fun header => utf8Encode (headerLine header)).flatMap (· ++ crlf) ++ crlf := by
    simp only [Call.bytes, List.flatMap_cons, List.flatMap_append, List.flatMap_map,
      List.append_assoc, List.cons_append]
    rfl
  rw [hblock, crlf, split_flatMap, blockLines]
  · rfl
  · rw [List.cons_append, List.forall_mem_cons, List.forall_mem_append]
    exact ⟨hstatus, hserver, hheaders⟩

/-! ## Runs -/

/-- No header pair that was passed to `write_headers` so far has a line end, and every block
that was written has the lines that it should have. -/
def HeadersUnsplit (s : Process) : Prop :=
  ∀ e ∈ s.log, ∀ status headers, Effect.call (.writeHeaders status headers) ∈ e.effects →
    (∀ header ∈ headers, CleanHeader header) ∧
      ∀ date, split crlf ((Call.writeHeaders status headers).bytes date) =
        blockLines date status headers

/-- The step does not complete a login under a name with a line end. -/
def NameUnsplit (p : Platform) (s : Process) : Label → Prop
  | .request _ _ => True
  | .resume index _ _ => ∀ waiting, s.pending[index]? = some waiting → waiting.await.OneLineName p

instance (p : Platform) (s : Process) : (l : Label) → Decidable (NameUnsplit p s l)
  | .request _ _ => .isTrue trivial
  | .resume index _ _ =>
    inferInstanceAs (Decidable (∀ waiting ∈ s.pending[index]?, waiting.await.OneLineName p))

/-- The stretch that a step logs. -/
theorem Process.log_perform (p : Platform) (s : Process) (env : Env) (request : ℕ) (task : Task)
    (pending : List Pending) (requests : ℕ) :
    (s.perform p env request task pending requests).log = s.log ++
      [{ request := request, task := task, effects := ((task.prog p).run env s.store).effects
         result := ((task.prog p).run env s.store).result }] := rfl

/-- A stretch with clean calls keeps header blocks unsplit. -/
theorem HeadersUnsplit.perform {p : Platform} {s : Process} {env : Env} {request requests : ℕ}
    {task : Task} {pending : List Pending} (hs : HeadersUnsplit s)
    (htask : (task.prog p).Calls CleanCall fun _ => True) :
    HeadersUnsplit (s.perform p env request task pending requests) := by
  intro e he status headers hcall
  rw [Process.log_perform, List.mem_append, List.mem_singleton] at he
  rcases he with he | rfl
  · exact hs e he status headers hcall
  · have hclean := htask.of_run env s.store hcall
    exact ⟨hclean, fun date => split_block hclean⟩

/-- **Header blocks stay whole** exactly as long as nobody logs in under a name with a line
end. -/
theorem headersUnsplit_iff {p : Platform} {ls : List Label} {s : Process} (hrun : Reaches p ls s) :
    HeadersUnsplit s ↔ Run (Guarded (NameUnsplit p) (Steps p)) Process.initial ls s := by
  constructor
  · intro hs
    apply hrun.guarded_of_final HeadersUnsplit _ hs
    intro ls t l u _ hstep hu
    cases l with
    | request text env =>
      obtain rfl := Option.some.inj hstep
      exact ⟨fun e he => hu e (List.mem_append_left _ he), trivial⟩
    | resume index env timeout =>
      obtain ⟨waiting, hwaiting, rfl⟩ := hstep.resume
      refine ⟨fun e he => hu e (List.mem_append_left _ he), fun waiting' hwaiting' => ?_⟩
      obtain rfl := Option.some.inj (hwaiting.symm.trans hwaiting')
      -- the headers that the step has logged are clean
      apply oneLineName_of_clean env t.store
      intro c hc
      cases c with
      | writeHeaders status headers =>
        exact (hu _ (List.mem_append_right _ List.mem_cons_self) status headers hc).1
      | writeBody data => trivial
      | endBody => trivial
  · intro hguarded
    have hinitial : HeadersUnsplit Process.initial := fun e he => absurd he List.not_mem_nil
    apply hguarded.invariant hinitial
    rintro t l u ht ⟨hguard, hstep⟩
    cases l with
    | request text env =>
      obtain rfl := Option.some.inj hstep
      exact ht.perform (handle_clean text)
    | resume index env timeout =>
      obtain ⟨waiting, hwaiting, rfl⟩ := hstep.resume
      exact ht.perform (resume_clean (hguard waiting hwaiting))

/-- Alice's registration and her login, which writes her name into a cookie. -/
theorem headersUnsplit_iff_alice : HeadersUnsplit aliceLoggedIn :=
  (headersUnsplit_iff reaches_aliceLoggedIn).mpr
    (reaches_aliceLoggedIn.guarded_of_foldlM (by decide +kernel))

/-- A name of two lines. -/
def splitName : JsString := js "eve\r\nX: 1"

/-- A form with this name. -/
def splitForm : JsString := js "username=" ++ splitName ++ js "&password=password1"

/-- Someone registers and logs in under this name. -/
def splitRequests : List Label :=
  [.request (sampleRequest "POST" "/register" [] splitForm) sampleEnv, .resume 0 sampleEnv false,
    .request (sampleRequest "POST" "/login" [] splitForm) sampleEnv, .resume 0 sampleEnv false]

/-- The cookie that `login` sets then goes over two lines. -/
theorem not_headersUnsplit :
    ¬∀ (p : Platform) (ls : List Label) (s : Process), Reaches p ls s → HeadersUnsplit s := by
  intro hall
  have hlogged : ((splitRequests.foldlM (Process.step samplePlatform) Process.initial).map
      fun s => decide (Effect.call (.writeHeaders 302
        ((js "Location", js "/chat") :: sessionCookies (some splitName) (tokenOf sampleUuid))) ∈
          s.log.flatMap Entry.effects)) = some true := by decide +kernel
  obtain ⟨s, hs, hcall⟩ := Option.map_eq_some_iff.mp hlogged
  obtain ⟨e, he, hcall⟩ := List.mem_flatMap.mp (of_decide_eq_true hcall)
  have hclean := (hall _ _ _ (reaches_sample hs) e he _ _ hcall).1
  have hname := (cleanHeaders_sessionCookies sampleUuid).mp (List.forall_mem_cons.mp hclean).2
  exact absurd hname (by decide)

end NetworkServers.Phase2
