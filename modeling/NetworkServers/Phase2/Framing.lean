import NetworkServers.Phase2.Calls

/-!
# Responses on a Keep-Alive Connection

A client reads the responses on its connection one after the other, each by the request
that it is for and by its status. `InStep` says that it gets what the handlers meant and
that no byte is left between two responses. It stays in step as long as it sends no
`HEAD`, no poll is answered that there is nothing new, and nobody logs in under a name
with an empty line in it.
-/

namespace NetworkServers.Phase2

open NetworkServers.Js NetworkServers.HttpMessage

/-! ## Exchanges -/

/-- The calls of a handler that goes on with the given answers of the surroundings, if it
is done with them. -/
def Next.finish (p : Platform) : Next → List (Env × Store) → Option (List Call)
  | .done, _ => some []
  | .await _, [] => none
  | .await a, (env, s) :: later =>
    match ((a.resume p).run env s).result with
    | none => none
    | some next =>
      (next.finish p later).map (callsOf ((a.resume p).run env s).effects ++ ·)

/-- The calls for a request. -/
def answer (p : Platform) (text : JsString) (env : Env) (s : Store)
    (later : List (Env × Store)) : Option (List Call) :=
  match ((handle p text).run env s).result with
  | none => none
  | some next => (next.finish p later).map (callsOf ((handle p text).run env s).effects ++ ·)

/-- A request with the response that it is answered with, on the store that it finds and
on those that its handler finds when it goes on. Other connections may have changed the
store in between. -/
structure Exchange (p : Platform) where
  text : JsString
  env : Env
  store : Store
  later : List (Env × Store)
  date : UTCString
  calls : List Call
  answered : answer p text env store later = some calls
  complete : OneResponse calls

namespace Exchange

variable {p : Platform} (e : Exchange p)

/-- The method as the client has sent it. -/
def rawMethod : JsString := (keyValue (js " ") ((split (js "\r\n") e.text).headD [])).1

/-- Whether the client has sent a `HEAD` request. -/
def toHead : Bool := e.rawMethod = js "HEAD"

/-- The bytes on the connection. -/
def sent : List UInt8 := e.calls.flatMap (Call.bytes e.date)

/-- The response that the handler means: its status, and all data of its body. -/
def meant : Response where
  -- a complete response begins with its headers
  status := (e.calls.findSome? fun | .writeHeaders status _ => some status | _ => none).getD 0
  body := e.calls.flatMap fun | .writeBody data => data | _ => []

/-- A poll is answered when the store has as many records as at its start. -/
def Unchanged : Prop :=
  ∃ ctx, parse p e.text = some ctx ∧ PollRequest e.store.users ctx ∧
    ∃ env s later, e.later = (env, s) :: later ∧ s.chats.length = e.store.chats.length

/-- A login with the right password, under a name with an empty line in it. -/
def InjectsLine : Prop :=
  ∃ ctx username password u, parse p e.text = some ctx ∧
    LoginRequest e.store.users ctx username password u ∧
    u.password = some (passwordHash p password) ∧
    (crlf ++ crlf) <:+: utf8Encode (display username)

end Exchange

/-! ## The calls of an exchange -/

/-- The calls of an exchange, told apart by how a client reads them. -/
inductive ExchangeCalls {p : Platform} (e : Exchange p) : Prop where
  | plain (h : PlainResponse e.calls) (hchanged : ¬e.Unchanged) (hinjects : ¬e.InjectsLine)
  | unchanged (h : e.calls = response 304 [] []) (hunchanged : e.Unchanged)
  | login (username : Option JsString) (uuid : Uuid)
      (h : e.calls = response 302
        ((js "Location", js "/chat") :: sessionCookies username (tokenOf uuid)) [])
      (hchanged : ¬e.Unchanged)
      (hinjects : e.InjectsLine ↔ (crlf ++ crlf) <:+: utf8Encode (display username))

section Resume

variable {p : Platform} {env : Env} {s : Store}

theorem registerDigest_yields (username password : JsString) :
    (registerDigest p username password).Yields env
      (fun _ calls next => next = .done ∧ PlainResponse calls) s [] := by
  simp only [registerDigest, redirect, yields_bind, yields_userSet, yields_writeHeaders,
    yields_endBody, yields_pure]
  exact ⟨trivial, plainResponse_redirect (by decide) fun _ h => absurd h List.not_mem_nil⟩

theorem loginDigest_yields (username : Option JsString) (password : JsString) (u : UserData) :
    (loginDigest p username password u).Yields env
      (fun _ calls next => next = .done ∧
        (u.password ≠ some (passwordHash p password) ∧ PlainResponse calls ∨
          u.password = some (passwordHash p password) ∧ calls = response 302
            ((js "Location", js "/chat") :: sessionCookies username (tokenOf env.uuid)) []))
      s [] := by
  unfold loginDigest
  split
  · rename_i hpassword
    simp only [redirect, yields_bind, yields_writeHeaders, yields_endBody, yields_pure]
    exact ⟨trivial, .inl ⟨hpassword,
      plainResponse_redirect (by decide) fun _ h => absurd h List.not_mem_nil⟩⟩
  · rename_i hpassword
    simp only [redirect, yields_bind, yields_randomUUID, yields_userSet, yields_writeHeaders,
      yields_endBody, yields_pure]
    exact ⟨trivial, .inr ⟨of_not_not hpassword, rfl⟩⟩

theorem changedNext_yields (size : ℕ) :
    (changedNext size).Yields env (fun _ calls next => next = .done ∧
      calls = response (if size ≠ s.chats.length then 200 else 304) [] []) s [] := by
  simp only [changedNext, yields_bind, yields_chatGet, yields_writeHeaders, yields_endBody,
    yields_pure]
  exact ⟨trivial, rfl⟩

/-- A handler that is done makes no more calls. -/
theorem finish_done {later : List (Env × Store)} {calls : List Call}
    (h : Next.finish p .done later = some calls) : calls = [] := by
  cases later <;> exact (Option.some.inj h).symm

/-- The rest of a handler that is done after one more stretch. -/
theorem finish_await {a : Await} {later : List (Env × Store)} {calls : List Call}
    {Q : Env → Store → List Call → Prop}
    (hstretch : ∀ env s, (a.resume p).Yields env
      (fun _ calls next => next = .done ∧ Q env s calls) s [])
    (h : Next.finish p (.await a) later = some calls) :
    ∃ env s rest, later = (env, s) :: rest ∧ Q env s calls := by
  cases later with
  | nil => cases h
  | cons x rest =>
    obtain ⟨env, s⟩ := x
    refine ⟨env, s, rest, rfl, ?_⟩
    unfold Next.finish at h
    split at h
    · cases h
    · rename_i next hresult
      obtain ⟨hdone, hQ⟩ := hstretch env s next hresult
      obtain ⟨calls', hcalls', rfl⟩ := Option.map_eq_some_iff.mp h
      rw [hdone] at hcalls'
      obtain rfl := finish_done hcalls'
      rwa [List.append_nil]

/-- A file is sent chunk by chunk. -/
theorem finish_stream {chunks : List (List UInt8)} {later : List (Env × Store)}
    {calls : List Call} (h : Next.finish p (.await (.stream chunks)) later = some calls) :
    calls = chunks.map .writeBody ++ [.endBody] := by
  induction chunks generalizing later calls with
  | nil =>
    cases later with
    | nil => cases h
    | cons x rest =>
      obtain ⟨calls', hcalls', rfl⟩ := Option.map_eq_some_iff.mp h
      rw [finish_done hcalls']
      rfl
  | cons chunk chunks ih =>
    cases later with
    | nil => cases h
    | cons x rest =>
      obtain ⟨calls', hcalls', rfl⟩ := Option.map_eq_some_iff.mp h
      rw [ih hcalls']
      rfl

end Resume

/-- **Every exchange** is one of the three kinds. -/
theorem exchangeCalls {p : Platform} (hjson : StringifiesObjects p) (e : Exchange p) :
    ExchangeCalls e := by
  have hanswered := e.answered
  unfold answer at hanswered
  split at hanswered
  · cases hanswered
  rename_i next hnext
  obtain ⟨calls, hfinish, hcalls⟩ := Option.map_eq_some_iff.mp hanswered
  obtain ⟨ctx, hparse, hstart⟩ := handle_calls e.text (s := e.store) next hnext
  rw [List.nil_append] at hstart
  obtain ⟨router, hrouter⟩ := makeRouter_of_result hnext
  -- what the request waits for, if it is a poll or a login that goes on
  have hpoll : e.Unchanged → next = .await (.changed e.store.chats.length) := by
    rintro ⟨ctx', hparse', h, -⟩
    rw [handle_run_poll hrouter hparse' h] at hnext
    exact (Option.some.inj hnext).symm
  have hlogin : e.InjectsLine → ∃ username password u, next = .await (.login username password u) ∧
      u.password = some (passwordHash p password) ∧
      (crlf ++ crlf) <:+: utf8Encode (display username) := by
    rintro ⟨ctx', username, password, u, hparse', h, hpassword, hinfix⟩
    rw [handle_run_login hrouter hparse' h] at hnext
    exact ⟨username, password, u, (Option.some.inj hnext).symm, hpassword, hinfix⟩
  generalize callsOf ((handle p e.text).run e.env e.store).effects = first at hstart hcalls
  cases hstart with
  | answered _ hplain =>
    obtain rfl := finish_done hfinish
    rw [List.append_nil] at hcalls
    refine .plain (hcalls ▸ hplain hjson) (fun hun => nomatch hpoll hun) fun hin => ?_
    obtain ⟨_, _, _, hnext, -⟩ := hlogin hin
    cases hnext
  | unanswered =>
    obtain rfl := finish_done hfinish
    have hnil : e.calls = [] := hcalls.symm
    exact absurd (hnil ▸ e.complete) not_oneResponse_nil
  | register username password =>
    obtain ⟨_, _, _, -, h⟩ := finish_await
      (fun _ _ => registerDigest_yields username password) hfinish
    refine .plain (hcalls ▸ h) (fun hun => nomatch hpoll hun) fun hin => ?_
    obtain ⟨_, _, _, hnext, -⟩ := hlogin hin
    cases hnext
  | login hrequest =>
    rename_i username password u
    obtain ⟨env, _, _, -, h⟩ := finish_await
      (fun _ _ => loginDigest_yields username password u) hfinish
    rcases h with ⟨hwrong, h⟩ | ⟨hright, h⟩
    · refine .plain (hcalls ▸ h) (fun hun => nomatch hpoll hun) fun hin => ?_
      obtain ⟨_, _, _, hnext, hpassword, -⟩ := hlogin hin
      cases hnext
      exact hwrong hpassword
    · refine .login username env.uuid (hcalls ▸ h) (fun hun => nomatch hpoll hun) ⟨?_, ?_⟩
      · intro hin
        obtain ⟨_, _, _, hnext, -, hinfix⟩ := hlogin hin
        cases hnext
        exact hinfix
      · exact fun hinfix => ⟨ctx, username, password, u, hparse, hrequest, hright, hinfix⟩
  | stream hheader hchunks =>
    rename_i header chunks
    rw [finish_stream hfinish] at hcalls
    have h : PlainResponse e.calls := ⟨200, [header], chunks, hcalls.symm, by decide,
      List.forall_mem_singleton.mpr hheader, hchunks⟩
    refine .plain h (fun hun => nomatch hpoll hun) fun hin => ?_
    obtain ⟨_, _, _, hnext, -⟩ := hlogin hin
    cases hnext
  | changed hrequest =>
    obtain ⟨env, s, rest, hlater, h⟩ := finish_await
      (fun _ _ => changedNext_yields e.store.chats.length) hfinish
    rw [List.nil_append, h] at hcalls
    by_cases hsize : e.store.chats.length = s.chats.length
    · rw [if_neg (not_not.mpr hsize)] at hcalls
      exact .unchanged hcalls.symm ⟨ctx, hparse, hrequest, env, s, rest, hlater, hsize.symm⟩
    · rw [if_pos hsize] at hcalls
      refine .plain ⟨200, [], [], hcalls.symm, by decide, fun _ h => absurd h List.not_mem_nil,
        fun _ h => absurd h List.not_mem_nil⟩ ?_ fun hin => ?_
      · rintro ⟨_, -, -, env', s', rest', hlater', hsize'⟩
        cases hlater.symm.trans hlater'
        exact hsize hsize'.symm
      · obtain ⟨_, _, _, hnext, -⟩ := hlogin hin
        cases hnext

/-! ## The bytes of a response -/

section Bytes

variable {date : UTCString}

/-- The field lines of a response. -/
def fieldTexts (date : UTCString) (headers : List (JsString × JsString)) : List (List UInt8) :=
  (serverLines date ++ headers.map headerLine).map utf8Encode

/-- The bytes that a response is sent in. -/
theorem bytes_response (status : ℕ) (headers : List (JsString × JsString))
    (bodies : List (List UInt8)) :
    (response status headers bodies).flatMap (Call.bytes date) =
      statusLine status ++ crlf ++ ((fieldTexts date headers).flatMap (· ++ crlf) ++
        (crlf ++ (bodies.flatMap chunkBytes ++ lastChunk))) := by
  have hversion : utf8Encode (js "HTTP/1.1 ") = version := by decide
  have hlines : ∀ texts : List JsString, (texts.map utf8Encode).flatMap (· ++ crlf) =
      texts.flatMap socketLine := fun texts => List.flatMap_map ..
  have hbody : (bodies.map Call.writeBody).flatMap (Call.bytes date) = bodies.flatMap chunkBytes :=
    List.flatMap_map ..
  rw [response, List.flatMap_cons, List.flatMap_append, List.flatMap_singleton, hbody,
    bytes_endBody, fieldTexts, hlines, List.flatMap_append]
  simp only [Call.bytes, hversion, statusLine, List.append_assoc]

/-- The lines that every response has are field lines. -/
theorem fieldLines_serverLines : ∀ text ∈ serverLines date, FieldLines (utf8Encode text) := by
  have hdate : isLineText date.text := by
    simp only [isLineText, List.all_eq_true, Bool.and_eq_true, decide_eq_true_iff]
    exact fun c hc => ⟨date.ascii c hc, fun h13 => date.oneLine (h13 ▸ hc)⟩
  simp only [serverLines, List.forall_mem_cons]
  refine ⟨?_, ?_, ?_, ?_, ?_, fun _ h => absurd h List.not_mem_nil⟩
  · refine fieldLines_lineText ?_ ⟨_, rfl, by decide⟩
    rw [isLineText_append, hdate]
    decide
  all_goals exact fieldLines_lineText (by decide) ⟨_, rfl, by decide⟩

theorem fieldLines_fieldTexts {headers : List (JsString × JsString)}
    (hheaders : ∀ header ∈ headers, PlainHeader header) :
    ∀ text ∈ fieldTexts date headers, FieldLines text := by
  intro text htext
  obtain ⟨line, hline, rfl⟩ := List.mem_map.mp htext
  rcases List.mem_append.mp hline with hline | hline
  · exact fieldLines_serverLines line hline
  · obtain ⟨header, hheader, rfl⟩ := List.mem_map.mp hline
    exact hheaders header hheader

/-- The header block of a response ends in an empty line. -/
theorem exists_flatMap_fieldTexts (date : UTCString) (headers : List (JsString × JsString)) :
    ∃ u, (fieldTexts date headers).flatMap (· ++ crlf) = u ++ crlf := by
  obtain ⟨texts, text, heq⟩ := List.eq_nil_or_concat (fieldTexts date headers) |>.resolve_left
    (by simp [fieldTexts, serverLines])
  exact ⟨texts.flatMap (· ++ crlf) ++ text, by simp [heq, List.concat_eq_append]⟩

/-- A client that expects no body leaves the chunks of a response. -/
theorem not_readResponse_noBody {toHead : Bool} {status : ℕ} (hno : toHead ∨ status = 304)
    (headers : List (JsString × JsString)) (bodies : List (List UInt8)) (r : Response) :
    readResponse toHead ((response status headers bodies).flatMap (Call.bytes date)) ≠
      some (r, []) := by
  intro h
  obtain ⟨u, hu⟩ := exists_flatMap_fieldTexts date headers
  rw [bytes_response, hu, ← List.append_assoc (u ++ crlf)] at h
  have hsuffix := suffix_of_readResponse_noBody hno h
  have hnil := List.append_eq_nil_iff.mp (List.suffix_nil.mp hsuffix)
  exact absurd hnil.2 (by decide)

/-- The bytes of the cookie with the name, taken apart in front of the name and behind
it. -/
theorem utf8Encode_userCookie (name : JsString) :
    utf8Encode (headerLine (js "Set-Cookie", js "user=" ++ name ++ js "; Path=/; HttpOnly")) =
      utf8Encode (js "Set-Cookie: user") ++ 61 ::
        (utf8Encode name ++ 59 :: utf8Encode (js " Path=/; HttpOnly")) := by
  have hshape : headerLine (js "Set-Cookie", js "user=" ++ name ++ js "; Path=/; HttpOnly") =
      js "Set-Cookie: user" ++ 61 :: (name ++ 59 :: js " Path=/; HttpOnly") := by
    simp only [headerLine, List.append_assoc]
    rfl
  rw [hshape, utf8Encode_append_cons (by decide), utf8Encode_append_cons (by decide)]
  rfl

/-- The cookie is read as field lines unless there is an empty line in the name. -/
theorem plainHeader_userCookie_iff (name : JsString) :
    PlainHeader (js "Set-Cookie", js "user=" ++ name ++ js "; Path=/; HttpOnly") ↔
      ¬(crlf ++ crlf) <:+: utf8Encode name := by
  have hshape : crlf ++ (utf8Encode (js "Set-Cookie: user") ++ 61 ::
      (utf8Encode name ++ 59 :: utf8Encode (js " Path=/; HttpOnly"))) ++ crlf =
      (crlf ++ utf8Encode (js "Set-Cookie: user")) ++ 61 ::
        (utf8Encode name ++ 59 :: (utf8Encode (js " Path=/; HttpOnly") ++ crlf)) := by
    simp only [List.append_assoc, List.cons_append]
  have hleft : ¬(crlf ++ crlf) <:+: crlf ++ utf8Encode (js "Set-Cookie: user") :=
    not_emptyLine_of_count (by decide)
  have hright : ¬(crlf ++ crlf) <:+: utf8Encode (js " Path=/; HttpOnly") ++ crlf :=
    not_emptyLine_of_count (by decide)
  unfold PlainHeader FieldLines
  rw [utf8Encode_userCookie, hshape, infix_append_cons_iff (by decide),
    infix_append_cons_iff (by decide)]
  simp only [hleft, hright, false_or, or_false]

/-- The empty line in a name ends the header block, and what follows it is no empty body
with nothing behind it. -/
theorem not_readResponse_emptyLine {username : Option JsString}
    (hname : (crlf ++ crlf) <:+: utf8Encode (display username)) (uuid : Uuid) {r : Response}
    (hr : r.body = []) :
    readResponse false ((response 302 ((js "Location", js "/chat") ::
      sessionCookies username (tokenOf uuid)) []).flatMap (Call.bytes date)) ≠ some (r, []) := by
  intro h
  obtain ⟨x, y, hxy⟩ := hname
  rw [bytes_response, fieldTexts, sessionCookies] at h
  simp only [List.map_append, List.map_cons, List.map_nil, utf8Encode_userCookie, ← hxy,
    List.flatMap_append, List.flatMap_cons, List.flatMap_nil] at h
  -- everything in front of the empty line, and the rest of the line behind it
  have hsuffix : lastChunk <:+ [] := @suffix_of_readResponse_emptyLine 302
    (((serverLines date).map utf8Encode).flatMap (· ++ crlf) ++
      (utf8Encode (headerLine (js "Location", js "/chat")) ++ crlf ++
        (utf8Encode (js "Set-Cookie: user") ++ 61 :: x)))
    (y ++ 59 :: utf8Encode (js " Path=/; HttpOnly"))
    (utf8Encode (headerLine
      (js "Set-Cookie", js "token=" ++ tokenOf uuid ++ js "; Path=/; HttpOnly")))
    lastChunk [] r hr (by simpa using h)
  exact absurd (List.suffix_nil.mp hsuffix) (by decide)

end Bytes

/-! ## Staying in step -/

section InStep

variable {p : Platform} {e : Exchange p}

/-- What is meant by the calls of a response. -/
theorem meant_response {status : ℕ} {headers : List (JsString × JsString)}
    {bodies : List (List UInt8)} (h : e.calls = response status headers bodies) :
    e.meant = { status := status, body := bodies.flatten } := by
  have hbodies : (bodies.map Call.writeBody).flatMap
      (fun | .writeBody data => data | _ => []) = bodies.flatten := by
    rw [List.flatMap_map]
    exact List.flatMap_id'
  rw [Exchange.meant, h, response]
  simp [hbodies]

/-- A response to another method than `HEAD` reads back if a client can read it. -/
theorem readsBack_of_plain (hhead : e.toHead = false) (h : PlainResponse e.calls) :
    ReadsBack Exchange.toHead Exchange.sent Exchange.meant e := by
  obtain ⟨status, headers, bodies, hcalls, hstatus, hheaders, hbodies⟩ := h
  intro rest
  rw [hhead, meant_response hcalls, Exchange.sent, hcalls, bytes_response]
  simpa using readResponse_chunked hstatus (fieldLines_fieldTexts hheaders) hbodies rest

/-- The three ways to get out of step. -/
structure KeepsStep (e : Exchange p) : Prop where
  noHead : e.rawMethod ≠ js "HEAD"
  changed : ¬e.Unchanged
  noEmptyLine : ¬e.InjectsLine

/-- A login without an empty line in its name reads back. -/
theorem plainResponse_login {username : Option JsString}
    (hname : ¬(crlf ++ crlf) <:+: utf8Encode (display username)) (uuid : Uuid) :
    PlainResponse (response 302
      ((js "Location", js "/chat") :: sessionCookies username (tokenOf uuid)) []) := by
  refine ⟨302, _, [], rfl, by decide, ?_, fun _ h => absurd h List.not_mem_nil⟩
  simp only [sessionCookies, List.forall_mem_cons]
  exact ⟨plainHeader_location (by decide), (plainHeader_userCookie_iff _).mpr hname,
    plainHeader_token uuid, fun _ h => absurd h List.not_mem_nil⟩

/-- An exchange that keeps in step reads back. -/
theorem KeepsStep.readsBack (h : KeepsStep e) (hjson : StringifiesObjects p) :
    ReadsBack Exchange.toHead Exchange.sent Exchange.meant e := by
  have hhead : e.toHead = false := decide_eq_false h.noHead
  cases exchangeCalls hjson e with
  | plain hplain => exact readsBack_of_plain hhead hplain
  | unchanged _ hunchanged => exact absurd hunchanged h.changed
  | login username uuid hcalls _ hinjects =>
    have hname := mt hinjects.mpr h.noEmptyLine
    exact readsBack_of_plain hhead (hcalls ▸ plainResponse_login hname uuid)

/-- Any other exchange is misread, even when nothing follows it. -/
theorem keepsStep_of_readResponse (hjson : StringifiesObjects p)
    (hread : readResponse e.toHead e.sent = some (e.meant, [])) : KeepsStep e := by
  obtain ⟨status, headers, bodies, hcalls⟩ := e.complete
  have hhead : e.toHead = false := by
    rw [Bool.eq_false_iff]
    intro hhead
    rw [Exchange.sent, hcalls] at hread
    exact not_readResponse_noBody (.inl hhead) headers bodies _ hread
  have hkinds := exchangeCalls hjson e
  refine { noHead := of_decide_eq_false hhead, changed := fun hunchanged => ?_,
           noEmptyLine := fun hinjects => ?_ }
  · cases hkinds with
    | plain _ hchanged | login _ _ _ hchanged => exact hchanged hunchanged
    | unchanged hcalls =>
      rw [Exchange.sent, hcalls] at hread
      exact not_readResponse_noBody (.inr rfl) [] [] _ hread
  · cases hkinds with
    | plain _ _ hno => exact hno hinjects
    | unchanged _ hunchanged =>
      -- one request is not both a poll and a login
      obtain ⟨ctx, hparse, hpoll, -⟩ := hunchanged
      obtain ⟨ctx', _, _, _, hparse', hlogin, -⟩ := hinjects
      obtain rfl : ctx = ctx' := Option.some.inj (hparse.symm.trans hparse')
      exact absurd (hpoll.path.symm.trans hlogin.path) (by decide)
    | login username uuid hcalls _ hiff =>
      rw [hhead, Exchange.sent, hcalls] at hread
      apply not_readResponse_emptyLine (hiff.mp hinjects) uuid _ hread
      rw [meant_response hcalls]
      rfl

/-- **Client and server stay in step**: over every sequence of answered requests on one
connection, the client recovers the statuses and bodies that were meant, with nothing left
over after any of them, if and only if no request is a `HEAD`, no poll is answered on a
store of the same size, and no name with an empty line in it logs in. -/
theorem inStep_iff_keepsStep (hjson : StringifiesObjects p) (es : List (Exchange p)) :
    InStep Exchange.toHead Exchange.sent Exchange.meant es ↔ ∀ e ∈ es, KeepsStep e := by
  rw [inStep_iff fun e _ hread => (keepsStep_of_readResponse hjson hread).readsBack hjson]
  constructor
  · intro hback e he
    apply keepsStep_of_readResponse hjson
    simpa using hback e he []
  · exact fun hkeeps e he => (hkeeps e he).readsBack hjson

end InStep

theorem stringifiesObjects_sample : StringifiesObjects samplePlatform :=
  fun _ _ h => nomatch h

/-- A request, and the response that it is answered with. -/
def sampleExchange (text : JsString) (store : Store) (later : List (Env × Store)) (status : ℕ)
    (headers : List (JsString × JsString)) (bodies : List (List UInt8))
    (h : answer samplePlatform text sampleEnv store later = some (response status headers bodies)) :
    Exchange samplePlatform where
  text := text
  env := sampleEnv
  store := store
  later := later
  date := sampleDate
  calls := response status headers bodies
  answered := h
  complete := ⟨status, headers, bodies, rfl⟩

/-- Alice logs in, polls until there is a message, and asks for a page that is not there. -/
def aliceExchanges : List (Exchange samplePlatform) :=
  [sampleExchange (sampleRequest "POST" "/login" [] (aliceForm "password1")) aliceRegistered.store
      [(sampleEnv, aliceRegistered.store)] 302
      ((js "Location", js "/chat") :: sessionCookies (some (js "alice")) (tokenOf sampleUuid)) []
      (by decide +kernel),
    sampleExchange (sampleRequest "GET" "/chat-status" aliceCookies []) aliceLoggedIn.store
      [(sampleEnv, { aliceLoggedIn.store with
        chats := [{ user := some (js "bob"), message := js "Hi", timestamp := 2 }] })] 200 [] []
      (by decide +kernel),
    sampleExchange (sampleRequest "GET" "/missing" aliceCookies []) aliceLoggedIn.store [] 404
      [(js "Content-Type", js "text/plain")] [utf8Encode (js "Not Found")] (by decide +kernel)]

theorem inStep_iff_keepsStep_alice :
    InStep Exchange.toHead Exchange.sent Exchange.meant aliceExchanges := by
  have hread : ∀ e ∈ aliceExchanges, readResponse e.toHead e.sent = some (e.meant, []) := by
    decide +kernel
  exact (inStep_iff_keepsStep stringifiesObjects_sample _).mpr fun e he =>
    keepsStep_of_readResponse stringifiesObjects_sample (hread e he)

/-- A `HEAD` request for a page that is not there. -/
def missingHead : Exchange samplePlatform :=
  sampleExchange (sampleRequest "HEAD" "/missing" [] []) Store.initial [] 404
    [(js "Content-Type", js "text/plain")] [utf8Encode (js "Not Found")] (by decide +kernel)

/-- It is answered with a body. -/
theorem not_inStep_head :
    ¬∀ p, StringifiesObjects p → ∀ es : List (Exchange p),
      InStep Exchange.toHead Exchange.sent Exchange.meant es := by
  intro hall
  have hread := hall samplePlatform stringifiesObjects_sample [missingHead] 1
  simp only [List.take_succ_cons, List.take_nil, List.map_cons, List.map_nil, List.flatMap_cons,
    List.flatMap_nil, List.append_nil, readResponses] at hread
  obtain ⟨⟨r, rest⟩, hr, h⟩ := Option.bind_eq_some_iff.mp hread
  obtain ⟨-, rfl⟩ := Prod.mk.injEq .. ▸ Option.some.inj h
  have hhead : missingHead.toHead = true := by decide +kernel
  rw [hhead] at hr
  exact not_readResponse_noBody (.inl rfl) _ _ r hr

end NetworkServers.Phase2
