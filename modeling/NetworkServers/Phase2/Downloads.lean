import NetworkServers.Library.HttpFields
import NetworkServers.Phase2.Pipelining

/-!
# Downloads

A file of the static directories is sent chunk by chunk, and between two chunks the process does
whatever else it has to do. What has been written for the request is always the beginning of the
whole response, and once its handler is done a client reads the file from it, byte for byte; only
the end of the worker cuts it off.
-/

namespace NetworkServers.Phase2

open NetworkServers.Js NetworkServers.Runs NetworkServers.HttpMessage

/-- A request for a file of the static directories, of a type that is served. The body that is
sent for a `HEAD` too is nothing that a client expects. -/
structure StaticRequest (p : Platform) (text : JsString) (fp : JsString) (content : FileContent) :
    Prop where
  found : ∃ ctx router, parse p text = some ctx ∧ makeRouter p = some router ∧
    ctx.method ≠ js "HEAD" ∧ router.overrides.get? ctx.path.pathname = none ∧
    includes (js "..") (router.resolve ctx.path.pathname) = false ∧
    findFile p (fun _ => true) (router.resolve ctx.path.pathname) router.statics = some (fp, content)
  served : contentType (PosixPath.extname fp) ≠ []

/-- The headers of a download. -/
def fileHeaders (fp : JsString) : List (JsString × JsString) :=
  [(js "Content-Type", contentType (PosixPath.extname fp))]

/-- How far a download has got: some chunks are sent and the handler waits for the others, or all
of the response is there. -/
inductive Downloads (dates : ℕ → UTCString) (s : Process) (r : ℕ) (fp : JsString)
    (content : FileContent) (date : UTCString) : Prop where
  | streaming {sent rest : List (List UInt8)} (hchunks : content.chunks = sent ++ rest)
      (hwaits : { request := r, await := .stream rest } ∈ s.pending)
      (hbytes : s.responseBytes dates r =
        (Call.writeHeaders 200 (fileHeaders fp)).bytes date ++ sent.flatMap chunkBytes)
  | done (hwaits : ¬s.Waits r)
      (hbytes : s.responseBytes dates r =
        (response 200 (fileHeaders fp) content.chunks).flatMap (Call.bytes date))

/-! ## What a client reads -/

/-- The headers that `write_headers` puts in front of those of the handler. -/
def serverHeaders (date : UTCString) : List (JsString × JsString) :=
  [(js "Date", date.text), (js "Connection", js "Keep-Alive"), (js "Keep-Alive", js "timeout=5"),
    (js "Transfer-Encoding", js "chunked"), (js "Server", js "Node.js Only")]

theorem serverLines_eq (date : UTCString) :
    serverLines date = (serverHeaders date).map headerLine := rfl

/-- A header as a client reads it. -/
def receivedField (header : JsString × JsString) : Field where
  name := utf8Encode header.1
  value := ((utf8Encode (32 :: header.2)).dropWhile isBlank).rdropWhile isBlank

/-- The fields of a download. -/
def downloadFields (date : UTCString) (fp : JsString) : List Field :=
  (serverHeaders date ++ fileHeaders fp).map receivedField

section Reading

variable {date : UTCString} {fp : JsString}

/-- A header line reads back if the name is that of a field. -/
theorem readFieldLine_header {header : JsString × JsString} (hne : utf8Encode header.1 ≠ [])
    (hname : (utf8Encode header.1).all isNameByte) :
    readFieldLine (utf8Encode (headerLine header)) = some (receivedField header) := by
  have hline : headerLine header = header.1 ++ 58 :: 32 :: header.2 := List.append_assoc ..
  rw [hline, utf8Encode_append_cons (by decide)]
  exact readFieldLine_colon hne hname _

/-- The header lines of a download are lines, and read back as its fields. -/
theorem fieldTexts_download : (∀ line ∈ fieldTexts date (fileHeaders fp),
      line ≠ [] ∧ ¬crlf <:+: line) ∧
    (fieldTexts date (fileHeaders fp)).mapM readFieldLine = some (downloadFields date fp) := by
  have hdate : isLineText date.text := by
    simp only [isLineText, List.all_eq_true, Bool.and_eq_true, decide_eq_true_iff]
    exact fun c hc => ⟨date.ascii c hc, fun h13 => date.oneLine (h13 ▸ hc)⟩
  have htype := isLineText_contentType (PosixPath.extname fp)
  -- the date and the type are the only values that are not constants
  have hheaders : ∀ header ∈ serverHeaders date ++ fileHeaders fp, isLineText header.1 ∧
      isLineText header.2 ∧ utf8Encode header.1 ≠ [] ∧ (utf8Encode header.1).all isNameByte := by
    simp only [serverHeaders, fileHeaders, List.cons_append, List.nil_append, List.forall_mem_cons]
    refine ⟨⟨?_, hdate, ?_⟩, ?_, ?_, ?_, ?_, ⟨?_, htype, ?_⟩, fun _ h => absurd h List.not_mem_nil⟩
    all_goals decide
  have htexts : fieldTexts date (fileHeaders fp) =
      (serverHeaders date ++ fileHeaders fp).map fun header => utf8Encode (headerLine header) := by
    rw [fieldTexts, serverLines_eq, ← List.map_append, List.map_map]
    rfl
  rw [htexts]
  constructor
  · simp only [List.forall_mem_map]
    intro header hheader
    obtain ⟨hkey, hvalue, -, -⟩ := hheaders header hheader
    have hline : isLineText (headerLine header) := by
      have hmark : isLineText (js ": ") := by decide
      simp only [headerLine, isLineText_append, hkey, hvalue, hmark, Bool.and_self]
    -- no byte of the line is a line end, so no line ends inside
    refine ⟨utf8Encode_ne_nil (by simp [headerLine, js]), fun hinside => ?_⟩
    exact not_mem_utf8Encode hline (hinside.subset (by decide))
  · unfold downloadFields
    generalize serverHeaders date ++ fileHeaders fp = headers at hheaders
    induction headers with
    | nil => rfl
    | cons header headers ih =>
      obtain ⟨-, -, hne, hname⟩ := hheaders header List.mem_cons_self
      have hrest := ih fun h hh => hheaders h (List.mem_cons_of_mem _ hh)
      rw [List.map_cons, List.mapM_cons, readFieldLine_header hne hname, hrest]
      rfl

/-- The fields say that the body is chunked. -/
theorem bodyEnd_download : bodyEnd false 200 (downloadFields date fp) = some .chunked := rfl

/-- **A client reads the file** from the whole response. -/
theorem readMessage_download (content : FileContent) (rest : List UInt8) :
    readMessage false ((response 200 (fileHeaders fp) content.chunks).flatMap (Call.bytes date) ++
      rest) = some ({ status := 200, fields := downloadFields date fp
                      body := content.chunks.flatten }, rest) := by
  rw [bytes_response]
  simpa using readMessage_chunked fieldTexts_download.1 fieldTexts_download.2 bodyEnd_download
    content.chunks_ne rest

end Reading

/-! ## Downloads in a process -/

section Downloads

variable {p : Platform} {s t : Process} {dates : ℕ → UTCString} {r : ℕ} {text fp : JsString}
  {content : FileContent} {date : UTCString} {env : Env} {request : ℕ} {task : Task}
  {pending : List Pending} {requests : ℕ}

/-- What a stretch adds to the bytes of a request. -/
theorem responseBytes_perform :
    (s.perform p env request task pending requests).responseBytes dates r =
      s.responseBytes dates r ++ if request = r then
        (callsOf ((task.prog p).run env s.store).effects).flatMap
          (Call.bytes (dates s.log.length)) else [] := by
  unfold Process.responseBytes
  rw [writes_perform, List.filter_append, List.flatMap_append, List.filter_map]
  congr 1
  by_cases hr : request = r
  · simp [hr, Function.comp_def, List.flatMap_map, Write.bytes]
  · simp [hr, Function.comp_def]

/-- Nothing has been written for a request that has not come in. -/
theorem HandlersInv.responseBytes_eq_nil (h : HandlersInv p s) :
    s.responseBytes dates s.requests = [] := by
  have hnone : (s.writes dates).filter (fun w => w.request = s.requests) = [] := by
    rw [List.filter_eq_nil_iff]
    intro w hw hrequest
    apply callsFor_ne_nil hw
    rw [decide_eq_true_iff.mp hrequest]
    exact h.callsFor_eq_nil (Nat.le_refl _)
  rw [Process.responseBytes, hnone, List.flatMap_nil]

/-- The whole response, in the order in which it is written. -/
theorem bytes_download (chunks : List (List UInt8)) :
    (response 200 (fileHeaders fp) chunks).flatMap (Call.bytes date) =
      (Call.writeHeaders 200 (fileHeaders fp)).bytes date ++ (chunks.flatMap chunkBytes ++ lastChunk) := by
  have hbody : (chunks.map Call.writeBody).flatMap (Call.bytes date) = chunks.flatMap chunkBytes :=
    List.flatMap_map ..
  rw [response, List.flatMap_cons, List.flatMap_append, hbody, List.flatMap_singleton,
    bytes_endBody]

/-- The first stretch of a download. -/
theorem StaticRequest.run (h : StaticRequest p text fp content) :
    (handle p text).run env s.store =
      { store := s.store, effects := [.call (.writeHeaders 200 (fileHeaders fp))]
        result := some (.await (.stream content.chunks)) } := by
  obtain ⟨ctx, router, hparse, hrouter, -, hroute, hguard, hfile⟩ := h.found
  simp only [handle, hparse, hrouter, Prog.run_bind, run_require_some, Outcome.after_nil,
    Router.handle, hroute, Router.serveStatic, hguard, Bool.false_eq_true, if_false, hfile,
    if_neg h.served, run_writeHeaders, run_pure]
  rfl

/-- Another handler runs. -/
theorem Downloads.other (h : Downloads dates s r fp content date) (hne : request ≠ r)
    (hsub : ∀ w, w ∈ pending ↔ w ∈ s.pending ∧ w.request ≠ request) :
    Downloads dates (s.perform p env request task pending requests) r fp content date := by
  have hsame : (s.perform p env request task pending requests).responseBytes dates r =
      s.responseBytes dates r := by
    rw [responseBytes_perform, if_neg hne, List.append_nil]
  cases h with
  | streaming hchunks hwaits hbytes =>
    have hstays := (hsub _).mpr ⟨hwaits, fun heq => hne heq.symm⟩
    exact .streaming hchunks (List.mem_append_left _ hstays) (hsame.trans hbytes)
  | done hwaits hbytes =>
    refine .done (fun hwaits' => ?_) (hsame.trans hbytes)
    rcases waits_perform.mp hwaits' with ⟨w, hw, hrequest⟩ | ⟨heq, -⟩
    · exact hwaits ⟨w, ((hsub w).mp hw).1, hrequest⟩
    · exact hne heq

/-- The handler of the download goes on with the next chunk, or with the end. -/
theorem Downloads.next (h : Downloads dates s r fp content date) (hdistinct :
      (s.pending.map Pending.request).Nodup) {waiting : Pending} (hwaiting : waiting ∈ s.pending)
    (hrequest : waiting.request = r) (hsub : ∀ w ∈ pending, w.request ≠ waiting.request) :
    Downloads dates (s.perform p env waiting.request (.resume waiting.await) pending requests) r fp
      content date := by
  subst hrequest
  cases h with
  | done hwaits => exact absurd ⟨waiting, hwaiting, rfl⟩ hwaits
  | @streaming sent rest hchunks hwaits hbytes =>
    -- a request has one waiting handler, so this is the one of the download
    have hawait : waiting.await = .stream rest :=
      congrArg Pending.await (List.inj_on_of_nodup_map hdistinct hwaits hwaiting rfl).symm
    rw [hawait]
    cases rest with
    -- no chunk is left: the body is ended
    | nil =>
      refine .done (fun hwaits' => ?_) ?_
      · rcases waits_perform.mp hwaits' with ⟨w, hw, hrequest⟩ | ⟨-, a, hresult⟩
        · exact hsub w hw hrequest
        · cases hresult
      · rw [responseBytes_perform, if_pos rfl, hbytes, bytes_download, hchunks, List.append_nil,
          List.append_assoc]
        rfl
    -- one more chunk has been written
    | cons chunk rest =>
      have hchunks' : content.chunks = (sent ++ [chunk]) ++ rest := by
        rw [hchunks, List.append_assoc]
        rfl
      refine .streaming hchunks' (List.mem_append_right _ (mem_waiting.mpr ⟨rfl, rfl⟩)) ?_
      rw [responseBytes_perform, if_pos rfl, hbytes, List.flatMap_append, List.append_assoc]
      rfl

/-- All downloads of a process. -/
structure DownloadsInv (p : Platform) (dates : ℕ → UTCString) (s : Process) : Prop where
  handlers : HandlersInv p s
  downloads : ∀ e ∈ s.log, ∀ text fp content, e.task = .start text →
    StaticRequest p text fp content → ∃ date, Downloads dates s e.request fp content date

/-- What a step does to the downloads. -/
theorem DownloadsInv.step (h : DownloadsInv p dates s) {l : Label} (hstep : Steps p s l t) :
    DownloadsInv p dates t := by
  refine ⟨h.handlers.step hstep, ?_⟩
  intro e he text fp content htask hstatic
  cases h.handlers.turnCases hstep with
  | start text' env ht =>
    subst ht
    rcases List.mem_append.mp he with he | he
    · -- the new request is another one
      obtain ⟨date, hdownloads⟩ := h.downloads e he text fp content htask hstatic
      have hne : s.requests ≠ e.request := (h.handlers.logged e he).ne'
      refine ⟨date, hdownloads.other hne fun w => ⟨fun hw => ⟨hw, ?_⟩, And.left⟩⟩
      exact (h.handlers.known w hw).ne
    · -- this request: its first stretch writes the header and waits for the chunks
      obtain rfl := List.mem_singleton.mp he
      obtain rfl : text' = text := Task.start.inj htask
      refine ⟨dates s.log.length, .streaming (List.nil_append _).symm ?_ ?_⟩
      · apply List.mem_append_right
        rw [mem_waiting]
        exact ⟨congrArg Outcome.result hstatic.run, rfl⟩
      · rw [responseBytes_perform, if_pos rfl, h.handlers.responseBytes_eq_nil]
        show [] ++ (callsOf ((handle p text').run env s.store).effects).flatMap _ = _
        rw [hstatic.run]
        rfl
  | resume index env timeout waiting pending hindex hsub hnodup ht =>
    subst ht
    have hwaiting := List.mem_of_getElem? hindex
    rcases List.mem_append.mp he with he | he
    · obtain ⟨date, hdownloads⟩ := h.downloads e he text fp content htask hstatic
      refine ⟨date, ?_⟩
      -- the handler that goes on is that of the download, or another one
      by_cases hown : waiting.request = e.request
      · exact hdownloads.next h.handlers.distinct hwaiting hown fun w hw => ((hsub w).mp hw).2
      · exact hdownloads.other hown hsub
    · obtain rfl := List.mem_singleton.mp he
      cases htask

/-- The data files may change. -/
theorem DownloadsInv.files (h : DownloadsInv p dates s) (store : Store) :
    DownloadsInv p dates { s with store := store } where
  handlers := h.handlers.files store
  downloads := fun e he text fp content htask hstatic => by
    obtain ⟨date, hdownloads⟩ := h.downloads e he text fp content htask hstatic
    refine ⟨date, ?_⟩
    cases hdownloads with
    | streaming hchunks hwaits hbytes => exact .streaming hchunks hwaits hbytes
    | done hwaits hbytes => exact .done hwaits hbytes

/-- **A download is the file**: in every run of a worker, whatever other requests are served in
between and whatever other workers write, what has been written for a request for a static file
is the beginning of one response; while the worker lives and the handler has not come to its end,
it waits for the chunks that are missing; and when it does not wait any more, a client reads the
status 200 and the file, byte for byte, and leaves whatever comes behind. -/
theorem download_reads {w : WorkerProcess} {store : Store} {ls : List WorkerLabel}
    (hrun : Lives p store ls w) (dates : ℕ → UTCString) {e : Entry} (he : e ∈ w.process.log)
    (htask : e.task = .start text) (hstatic : StaticRequest p text fp content) :
    ∃ date, w.process.responseBytes dates e.request <+:
        (response 200 (fileHeaders fp) content.chunks).flatMap (Call.bytes date) ∧
      (w.ended = false → w.process.Waits e.request →
        ∃ rest, { request := e.request, await := .stream rest } ∈ w.process.pending ∧
          w.process.responseBytes dates e.request ++ (rest.flatMap chunkBytes ++ lastChunk) =
            (response 200 (fileHeaders fp) content.chunks).flatMap (Call.bytes date)) ∧
      (¬w.process.Waits e.request → ∀ rest,
        readMessage false (w.process.responseBytes dates e.request ++ rest) =
          some ({ status := 200, fields := downloadFields date fp
                  body := content.chunks.flatten }, rest)) := by
  have hinv : DownloadsInv p dates w.process :=
    hrun.invariant ⟨handlersInv_forked store, fun _ he => absurd he List.not_mem_nil⟩
      (fun _ _ _ h hstep => h.step hstep) fun _ store h => h.files store
  obtain ⟨date, hdownloads⟩ := hinv.downloads e he text fp content htask hstatic
  refine ⟨date, ?_⟩
  cases hdownloads with
  -- the chunks that are missing complete the response
  | @streaming sent rest hchunks hwaits hbytes =>
    have hwhole : w.process.responseBytes dates e.request ++ (rest.flatMap chunkBytes ++ lastChunk) =
        (response 200 (fileHeaders fp) content.chunks).flatMap (Call.bytes date) := by
      rw [hbytes, bytes_download, hchunks, List.flatMap_append]
      simp only [List.append_assoc]
    exact ⟨⟨_, hwhole⟩, fun _ _ => ⟨rest, hwaits, hwhole⟩, fun hnot => absurd ⟨_, hwaits, rfl⟩ hnot⟩
  | done hwaits hbytes =>
    refine ⟨hbytes ▸ List.prefix_refl _, fun _ hwaits' => absurd hwaits' hwaits, fun _ rest => ?_⟩
    rw [hbytes]
    exact readMessage_download content rest

end Downloads

theorem staticRequest_page : ∃ fp content, StaticRequest samplePlatform pageRequest fp content ∧
    content.chunks = [utf8Encode (js "$\x7bchats\x7d")] := by
  have hparse : (parse samplePlatform pageRequest).map (fun ctx =>
      (ctx.path.pathname, ctx.method)) = some (js "/chat.html", js "GET") := by decide +kernel
  have hrouter : ((makeRouter samplePlatform).map fun router => decide
      ((router.overrides.get? (js "/chat.html")).isNone ∧
        includes (js "..") (router.resolve (js "/chat.html")) = false)) = some true := by
    decide +kernel
  have hfile : ((makeRouter samplePlatform).bind fun router =>
      (findFile samplePlatform (fun _ => true) (router.resolve (js "/chat.html")) router.statics).map
        fun file => decide (contentType (PosixPath.extname file.1) ≠ [] ∧
          file.2.chunks = [utf8Encode (js "$\x7bchats\x7d")])) = some true := by
    decide +kernel
  obtain ⟨ctx, hctx, hfields⟩ := Option.map_eq_some_iff.mp hparse
  obtain ⟨hpath, hmethod⟩ := Prod.mk.injEq .. ▸ hfields
  obtain ⟨router, hrouter, hroute⟩ := Option.map_eq_some_iff.mp hrouter
  obtain ⟨router', hrouter', hfile⟩ := Option.bind_eq_some_iff.mp hfile
  obtain rfl := Option.some.inj (hrouter.symm.trans hrouter')
  obtain ⟨⟨fp, content⟩, hfile, hcontent⟩ := Option.map_eq_some_iff.mp hfile
  obtain ⟨hroute, hguard⟩ := of_decide_eq_true hroute
  obtain ⟨hserved, hchunks⟩ := of_decide_eq_true hcontent
  rw [Option.isNone_iff_eq_none] at hroute
  rw [← hpath] at hroute hguard hfile
  have hnotHead : ctx.method ≠ js "HEAD" := by
    rw [hmethod]
    decide
  exact ⟨fp, content, ⟨⟨ctx, router, hctx, hrouter, hnotHead, hroute, hguard, hfile⟩, hserved⟩,
    hchunks⟩

/-- The page is downloaded while somebody else asks for the chat. -/
def pageDownload : List WorkerLabel :=
  [.step (.request pageRequest sampleEnv), .step (.resume 0 sampleEnv false),
    .step (.request (sampleRequest "GET" "/chat" [] []) sampleEnv), .files Store.initial,
    .step (.resume 0 sampleEnv false)]

theorem download_reads_page : ∃ w : WorkerProcess, Lives samplePlatform Store.initial pageDownload w ∧
    ¬w.process.Waits 0 ∧
    (readMessage false (w.process.responseBytes (fun _ => sampleDate) 0 ++ [])).map
      (fun (message, rest) => (message.status, message.body, rest)) =
      some (200, utf8Encode (js "$\x7bchats\x7d"), []) := by
  have hrun : ((pageDownload.foldlM (WorkerProcess.step samplePlatform)
      (WorkerProcess.forked Store.initial)).map fun w =>
        (w.process.pending.map Pending.request,
          w.process.log.head?.map fun e => (e.request, e.task))) =
      some ([], some (0, .start pageRequest)) := by decide +kernel
  obtain ⟨w, hw, hends⟩ := Option.map_eq_some_iff.mp hrun
  simp only [Prod.mk.injEq] at hends
  obtain ⟨hpending, hlog⟩ := hends
  obtain ⟨e, hfirst, he⟩ := Option.map_eq_some_iff.mp hlog
  simp only [Prod.mk.injEq] at he
  obtain ⟨hrequest, htask⟩ := he
  have hidle : ¬w.process.Waits 0 := by
    rintro ⟨w', hw', -⟩
    rw [List.map_eq_nil_iff.mp hpending] at hw'
    exact List.not_mem_nil hw'
  obtain ⟨fp, content, hstatic, hchunks⟩ := staticRequest_page
  have hlives : Lives samplePlatform Store.initial pageDownload w := Run.of_foldlM hw
  obtain ⟨date, -, -, hreads⟩ := download_reads hlives (fun _ => sampleDate)
    (List.mem_of_mem_head? hfirst) htask hstatic
  rw [hrequest] at hreads
  refine ⟨w, hlives, hidle, ?_⟩
  rw [hreads hidle [], hchunks]
  rfl

end NetworkServers.Phase2
