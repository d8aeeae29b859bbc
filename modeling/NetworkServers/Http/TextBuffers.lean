import Mathlib.Algebra.Ring.Nat
import NetworkServers.Http.Middlewares
import NetworkServers.Http.RequestHead
import NetworkServers.Http.ResponseDecoding

/-!
# Sizes of the Text Buffers of the HTTP Server

When the texts of `headers_to_string`, `middleware_test_handler` and `response_to_string`
fit into their buffers of 1 MiB. Only the handler that reflects the request can make them
too long: it adds 45 bytes of its own and a header, and `response_to_string` adds the status
line and the length on top of it, while the receive buffer is as large as theirs.
-/

namespace NetworkServers.Http

open NetworkServers.CString NetworkServers.HttpMessage NetworkServers.Machine

/-- No text has run out of its buffer. -/
def Fits {α : Type} (x : Except Fault α) : Prop := x ≠ .error .outOfBounds

theorem fits_ok {α : Type} (a : α) : Fits (.ok a : Except Fault α) := nofun

theorem fits_bind {α β : Type} {x : Except Fault α} {f : α → Except Fault β} :
    Fits (x >>= f) ↔ Fits x ∧ ∀ a, x = .ok a → Fits (f a) := by
  cases x with
  | ok a =>
    constructor
    · intro h
      refine ⟨fits_ok a, fun b hb => ?_⟩
      rwa [← Except.ok.inj hb]
    · exact fun h => h.2 a rfl
  | error e =>
    have hsame : Fits (.error e : Except Fault β) ↔ Fits (.error e : Except Fault α) := by
      simp [Fits]
    exact ⟨fun h => ⟨hsame.mp h, nofun⟩, fun h => hsame.mpr h.1⟩

/-! ## Lengths -/

theorem length_decimal_natCast_le_iff {n k : ℕ} (hk : 0 < k) :
    (decimal n).length ≤ k ↔ n < 10 ^ k := by
  rw [decimal_eq_integer]
  show ((Nat.toDigits 10 n).map _).length ≤ k ↔ _
  rw [List.length_map]
  exact Nat.length_toDigits_le_iff (by decide) hk

theorem length_decimal_le {n : ℤ} {k : ℕ} (hk : 0 < k) (h : n.natAbs < 10 ^ k) :
    (decimal n).length ≤ k + 1 := by
  cases n with
  | ofNat n => exact ((length_decimal_natCast_le_iff hk).mpr h).trans (Nat.le_succ k)
  | negSucc n =>
    have hdigits := (length_decimal_natCast_le_iff hk).mpr h
    rw [decimal_eq_integer] at hdigits ⊢
    exact Nat.succ_le_succ hdigits

theorem length_padded_le {fill : UInt8} {width k n : ℕ} (hk : 0 < k) (h : n < 10 ^ k) :
    (padded fill width n).length ≤ max width k := by
  have hdigits := (length_decimal_natCast_le_iff hk).mpr h
  rw [padded, List.length_append, List.length_replicate]
  omega

theorem length_dayName (wday : Fin 7) : (dayName wday).length = 3 := by
  revert wday
  decide

theorem length_monthName (mon : Fin 12) : (monthName mon).length = 3 := by
  revert mon
  decide

/-- The time takes few bytes in every year of an `int`. -/
theorem length_asctime_le (tm : Tm) : (asctime tm).length ≤ 40 := by
  have hmday : (padded 32 3 tm.mday).length ≤ 3 :=
    length_padded_le (k := 3) (by decide) (by omega)
  have hhour : (padded 48 2 tm.hour).length ≤ 2 :=
    length_padded_le (k := 2) (by decide) (by omega)
  have hmin : (padded 48 2 tm.min).length ≤ 2 :=
    length_padded_le (k := 2) (by decide) (by omega)
  have hsec : (padded 48 2 tm.sec).length ≤ 2 :=
    length_padded_le (k := 2) (by decide) (by omega)
  have hyear : (decimal (1900 + tm.year)).length ≤ 11 := by
    apply length_decimal_le (by decide)
    have hrange := tm.year_range
    omega
  have hblank : (bytes " ").length = 1 := rfl
  have hcolon : (bytes ":").length = 1 := rfl
  have hend : (bytes "\n").length = 1 := rfl
  rw [asctime]
  simp only [List.length_append, length_dayName, length_monthName, hblank, hcolon, hend]
  omega

theorem length_homepage : homepage.length = 156 := by rfl

theorem length_contentTypeOf_le (ext : List UInt8) : (contentTypeOf ext).length ≤ 22 := by
  unfold contentTypeOf
  split_ifs <;> decide

/-- How many bytes a table of headers takes: the separator and the line end are four. -/
def headersSize (headers : Headers) : ℕ :=
  (headers.fields.map fun field => field.name.length + field.value.length + 4).sum

theorem length_headerText (headers : Headers) :
    (headerText headers).length = headersSize headers := by
  have hcolon : (bytes ": ").length = 2 := rfl
  have hend : (bytes "\r\n").length = 2 := rfl
  rw [headerText, List.length_flatMap, headersSize]
  congr 1
  apply List.map_congr_left
  intro field _
  simp only [headerLine, List.length_append, hcolon, hend]
  omega

theorem headersSize_setHeader (response : Answer) (name value : List UInt8) :
    headersSize (response.setHeader name value).headers =
      headersSize response.headers + (name.length + value.length + 4) := by
  simp [headersSize, Answer.setHeader, headersSet]

theorem fits_headersToString {headers : Headers} :
    Fits (headersToString headers) ↔ headersSize headers < textBufferSize := by
  rw [← length_headerText]
  unfold Fits headersToString headerText
  dsimp only
  split
  · rename_i h
    exact ⟨fun _ => h, fun _ => nofun⟩
  · rename_i h
    exact ⟨fun hne => absurd rfl hne, fun hlt => absurd hlt h⟩

/-- What the reflecting handler repeats of a request. -/
def requestSize (request : Request) : ℕ :=
  request.method.length + request.path.length + headersSize request.headers +
    request.body.length

theorem length_requestText (request : Request) :
    (requestText request (headerText request.headers)).length = requestSize request + 45 := by
  have hyou : (bytes "You requested ").length = 14 := rfl
  have hblank : (bytes " ").length = 1 := rfl
  have hwith : (bytes "\n---\nWith headers:\n").length = 19 := rfl
  have hbody : (bytes "\n---\nBody:\n").length = 11 := rfl
  rw [requestText]
  simp only [List.length_append, length_headerText, hyou, hblank, hwith, hbody, requestSize]
  omega

/-! ## Rendering -/

/-- The statuses that the middlewares set. -/
def statuses : List ℤ := [200, 403, 404]

theorem length_statusLine {status : ℤ} (h : status ∈ statuses) :
    (statusLine status).length = 17 := by
  simp only [statuses, List.mem_cons, List.not_mem_nil, or_false] at h
  rcases h with rfl | rfl | rfl <;> rfl

/-- When `response_to_string` has room: besides the headers and the body it writes the status
line, the length with as many digits as it has, and the empty line. -/
theorem fits_responseToString {response : Response} (hstatus : response.status ∈ statuses) :
    Fits (responseToString response) ↔
      headersSize response.headers + (response.body.getD []).length +
        (decimal (response.body.getD []).length).length + 38 ≤ textBufferSize := by
  have hname : (bytes "Content-Length: ").length = 16 := rfl
  have hend : (bytes "\r\n").length = 2 := rfl
  unfold responseToString
  rw [fits_bind, fits_headersToString]
  constructor
  · -- the headers have been rendered, so their text is known
    rintro ⟨hheaders, hrest⟩
    have htext : headersToString response.headers = .ok (headerText response.headers) := by
      apply if_pos
      rw [← length_headerText] at hheaders
      exact hheaders
    have hfits := hrest _ htext
    dsimp only at hfits
    split at hfits
    · rename_i hlt
      simp only [List.length_append, length_statusLine hstatus, contentLength, hname, hend,
        length_headerText] at hlt
      omega
    · exact absurd rfl hfits
  · intro h
    refine ⟨by omega, fun headers hheaders => ?_⟩
    rw [headersToString_ok hheaders]
    dsimp only
    rw [if_pos]
    · exact fits_ok _
    · simp only [List.length_append, length_statusLine hstatus, contentLength, hname, hend,
        length_headerText]
      omega

/-- What `response_to_string` leaves for the headers and a body whose length has up to seven
digits. -/
def roomForContent : ℕ := 1048531

theorem fits_responseToString_of_le {response : Response} (hstatus : response.status ∈ statuses)
    (h : headersSize response.headers + (response.body.getD []).length ≤ roomForContent) :
    Fits (responseToString response) := by
  rw [fits_responseToString hstatus]
  have hdigits : (decimal (response.body.getD []).length).length ≤ 7 := by
    apply (length_decimal_natCast_le_iff (by decide)).mpr
    have : roomForContent < 10 ^ 7 := by decide
    omega
  have hroom : roomForContent + 7 + 38 = textBufferSize := rfl
  omega

/-- A response without a stream. -/
theorem sendResponse_text {response : Response} (hstream : response.bodyStream = none)
    (h : Fits (responseToString response)) : Fits (sendResponse response) := by
  unfold sendResponse
  rw [hstream]
  exact fits_bind.mpr ⟨h, fun _ _ => fits_ok _⟩

/-- A response with a stream. -/
theorem sendResponse_file {response : Response} {stream : List (List UInt8)}
    (hstream : response.bodyStream = some stream)
    (h : headersSize response.headers < textBufferSize) : Fits (sendResponse response) := by
  unfold sendResponse
  rw [hstream]
  exact fits_bind.mpr ⟨fits_headersToString.mpr h, fun _ _ => fits_ok _⟩

/-! ## The chain -/

/-- The size up to which a request can be reflected. -/
def reflectable : ℕ := 1048460

/-- A response between two middlewares, of which these are still to come. Only the
reflecting handler sets a header and goes on, and it runs once. -/
structure Pending (middlewares : List Middleware) (response : Answer) : Prop where
  stream : response.bodyStream = none
  status : response.status ∈ statuses
  room : headersSize response.headers + (response.body.getD []).length ≤ roomForContent
  headers : headersSize response.headers = 0 ∨
    .test ∉ middlewares ∧ headersSize response.headers ≤ 28

/-- What a handler leaves: it goes on with a pending response, or its response can be
sent. -/
def Leaves (middlewares : List Middleware) (turnOver : Bool) (response : Answer) : Prop :=
  if ¬turnOver ∨ response.bodyStream.isSome then Fits (sendResponse response.toResponse)
  else Pending middlewares response

section Handlers

variable {request : Request} {middlewares : List Middleware} {m : Middleware} {response : Answer}

theorem Pending.create : Pending middlewares Answer.create where
  stream := rfl
  status := by decide
  room := by decide
  headers := .inl rfl

theorem Pending.headers_le (h : Pending middlewares response) :
    headersSize response.headers ≤ 28 := by
  rcases h.headers with hzero | ⟨-, hle⟩
  · omega
  · exact hle

/-- The rest of the chain holds no more middlewares than before. -/
theorem Pending.tail (h : Pending (m :: middlewares) response) :
    Pending middlewares response where
  stream := h.stream
  status := h.status
  room := h.room
  headers := by
    rcases h.headers with hzero | ⟨htest, hle⟩
    · exact .inl hzero
    · exact .inr ⟨fun hmem => htest (List.mem_cons_of_mem m hmem), hle⟩

/-- A handler that stops with a short body of its own. -/
theorem outcome_stop {name value body : List UInt8} {status : ℤ} {literal : Bool}
    (h : Pending middlewares response) (hstatus : status ∈ statuses)
    (hlength : name.length + value.length + body.length ≤ 1000) :
    Leaves middlewares false { response.setHeader name value with
      status := status, body := some body, literalBody := literal } := by
  have hheaders := h.headers_le
  unfold Leaves
  rw [if_pos (.inl Bool.false_ne_true)]
  refine sendResponse_text ?_ (fits_responseToString_of_le hstatus ?_)
  · exact h.stream
  have hsize := headersSize_setHeader response name value
  have hroom : 2000 ≤ roomForContent := by decide
  show headersSize (response.setHeader name value).headers + body.length ≤ _
  omega

/-- A handler that goes on with a short body of its own. -/
theorem outcome_next {body : List UInt8} {status : ℤ} {literal : Bool}
    (h : Pending (m :: middlewares) response) (hstatus : status ∈ statuses)
    (hlength : body.length ≤ 1000) :
    Leaves middlewares true
      { response with status := status, body := some body, literalBody := literal } := by
  have hheaders := h.headers_le
  unfold Leaves
  rw [if_neg (by simp [h.stream])]
  refine { stream := h.stream, status := hstatus, room := ?_, headers := h.tail.headers }
  have hroom : 2000 ≤ roomForContent := by decide
  show headersSize response.headers + body.length ≤ _
  omega

theorem outcome_logger (h : Pending (.logger :: middlewares) response) :
    Leaves middlewares true response := by
  unfold Leaves
  rw [if_neg (by simp [h.stream])]
  exact h.tail

theorem outcome_homepage (request : Request) (now : Tm) (h : Pending (.homepage :: middlewares) response) :
    Leaves middlewares (middlewareHomepageHandler now request response).1
      (middlewareHomepageHandler now request response).2 := by
  unfold middlewareHomepageHandler
  split
  · have htime := length_asctime_le now
    have hname : (bytes "Content-Type").length = 12 := rfl
    have hvalue : (bytes "text/html; charset=utf-8").length = 24 := rfl
    apply outcome_stop h.tail (by decide)
    rw [List.length_append, length_homepage]
    omega
  · unfold Leaves
    rw [if_neg (by simp [h.stream])]
    exact h.tail

theorem outcome_notFound (request : Request) (h : Pending (.notFound :: middlewares) response) :
    Leaves middlewares (middleware404Handler request response).1
      (middleware404Handler request response).2 :=
  outcome_stop h.tail (by decide) (by decide)

theorem outcome_serveStatic {fopen : List UInt8 → Option (List (List UInt8))} {turnOver : Bool}
    {response' : Answer} (h : Pending (.serveStatic :: middlewares) response)
    (hrun : middlewareStaticHandler fopen request response = .ok (turnOver, response')) :
    Leaves middlewares turnOver response' := by
  rcases middlewareStaticHandler_cases fopen request response with
    ⟨-, refusal, hrefusal, hcase⟩ | ⟨-, -, hcase⟩ | ⟨-, -, ext, file, hcase⟩
  · obtain ⟨rfl, rfl⟩ := Prod.mk.inj (Except.ok.inj (hcase.symm.trans hrun))
    have hshort : ∀ refusal ∈ refusals, refusal.1 ∈ statuses ∧ refusal.2.length ≤ 1000 := by decide
    -- the texts of the refusals are short
    obtain ⟨hstatus, hlength⟩ := hshort refusal hrefusal
    exact outcome_next h hstatus hlength
  · cases hcase.symm.trans hrun
  · -- the file is sent behind the headers
    obtain ⟨rfl, rfl⟩ := Prod.mk.inj (Except.ok.inj (hcase.symm.trans hrun))
    have hheaders := h.headers_le
    have hname : (bytes "Content-Type").length = 12 := rfl
    have hvalue := length_contentTypeOf_le ext
    have hsize := headersSize_setHeader response (bytes "Content-Type") (contentTypeOf ext)
    have hbuffer : 1000 < textBufferSize := by decide
    unfold Leaves
    rw [if_pos (.inr rfl)]
    refine sendResponse_file rfl ?_
    show headersSize (response.setHeader _ _).headers < _
    omega

/-- The reflecting handler fits if the request is small enough. -/
theorem fits_middlewareTestHandler (hsize : requestSize request ≤ reflectable) :
    Fits (middlewareTestHandler request response) := by
  have hbuffer : reflectable + 45 < textBufferSize := by decide
  have hheaders : headersSize request.headers ≤ requestSize request := by
    unfold requestSize
    omega
  unfold middlewareTestHandler
  refine fits_bind.mpr ⟨fits_headersToString.mpr (by omega), fun headers htext => ?_⟩
  rw [headersToString_ok htext]
  dsimp only
  rw [if_pos (by rw [length_requestText]; omega)]
  exact fits_ok _

/-- If its texts fit, the reflecting handler returns. -/
theorem exists_middlewareTestHandler (h : Fits (middlewareTestHandler request response)) :
    ∃ result, middlewareTestHandler request response = .ok result := by
  unfold middlewareTestHandler at h ⊢
  rw [fits_bind, fits_headersToString] at h
  obtain ⟨hsize, hrest⟩ := h
  have htext : headersToString request.headers = .ok (headerText request.headers) := by
    apply if_pos
    rwa [← length_headerText] at hsize
  have hfits := hrest _ htext
  dsimp only at hfits
  rw [htext]
  split at hfits
  · rename_i hlt
    exact ⟨_, if_pos hlt⟩
  · exact absurd rfl hfits

/-- What the reflecting handler has made. -/
theorem middlewareTestHandler_ok {turnOver : Bool} {response' : Answer}
    (hrun : middlewareTestHandler request response = .ok (turnOver, response')) :
    turnOver = true ∧ response' =
      { response.setHeader (bytes "Content-Type") (bytes "text/plain") with
        status := 200, body := some (requestText request (headerText request.headers))
        literalBody := false } := by
  obtain ⟨headers, htext, hrun⟩ := bind_eq_ok.mp hrun
  rw [headersToString_ok htext] at hrun
  dsimp only at hrun
  split at hrun
  · obtain ⟨rfl, rfl⟩ := Prod.mk.inj (Except.ok.inj hrun)
    exact ⟨rfl, rfl⟩
  · cases hrun

theorem outcome_test {turnOver : Bool} {response' : Answer}
    (hsize : requestSize request ≤ reflectable) (honce : .test ∉ middlewares)
    (h : Pending (.test :: middlewares) response)
    (hrun : middlewareTestHandler request response = .ok (turnOver, response')) :
    Leaves middlewares turnOver response' := by
  obtain ⟨rfl, rfl⟩ := middlewareTestHandler_ok hrun
  -- the handler has not run before
  have hzero : headersSize response.headers = 0 := by
    rcases h.headers with hzero | ⟨htest, -⟩
    · exact hzero
    · exact absurd List.mem_cons_self htest
  have hheader := headersSize_setHeader response (bytes "Content-Type") (bytes "text/plain")
  have hname : (bytes "Content-Type").length = 12 := rfl
  have hvalue : (bytes "text/plain").length = 10 := rfl
  have hroom : reflectable + 45 + 26 = roomForContent := rfl
  unfold Leaves
  rw [if_neg (by simp [Answer.setHeader, h.stream])]
  refine { stream := h.stream, status := (by decide : (200 : ℤ) ∈ statuses), room := ?_
           headers := .inr ⟨honce, ?_⟩ }
  · show headersSize (response.setHeader _ _).headers + (requestText request _).length ≤ _
    rw [length_requestText]
    omega
  · show headersSize (response.setHeader _ _).headers ≤ 28
    omega

/-- Every handler fits, and leaves a response that can be sent or handed on. -/
theorem handler_outcome (surroundings : Surroundings) (hsize : requestSize request ≤ reflectable)
    (honce : m = .test → .test ∉ middlewares) (h : Pending (m :: middlewares) response) :
    Fits (m.handler surroundings request response) ∧ ∀ turnOver response',
      m.handler surroundings request response = .ok (turnOver, response') →
      Leaves middlewares turnOver response' := by
  cases m with
  | logger =>
    refine ⟨fits_ok _, fun turnOver response' hrun => ?_⟩
    obtain ⟨rfl, rfl⟩ := Prod.mk.inj (Except.ok.inj hrun)
    exact outcome_logger h
  | homepage =>
    refine ⟨fits_ok _, fun turnOver response' hrun => ?_⟩
    have hpair := Except.ok.inj hrun
    have houtcome := outcome_homepage request surroundings.now h
    rwa [hpair] at houtcome
  | notFound =>
    refine ⟨fits_ok _, fun turnOver response' hrun => ?_⟩
    have hpair := Except.ok.inj hrun
    have houtcome := outcome_notFound request h
    rwa [hpair] at houtcome
  | serveStatic =>
    refine ⟨?_, fun turnOver response' hrun => outcome_serveStatic h hrun⟩
    -- its only fault is the `NULL` that it may hand to `strcmp`
    show middlewareStaticHandler _ _ _ ≠ _
    unfold middlewareStaticHandler
    dsimp only
    split
    · nofun
    · split
      · nofun
      · split <;> nofun
  | test =>
    exact ⟨fits_middlewareTestHandler hsize, fun turnOver response' hrun =>
      outcome_test hsize (honce rfl) h hrun⟩

/-- A chain that reflects the request at most once fits, and so does its response. -/
theorem runMiddlewares_fits (surroundings : Surroundings)
    (hsize : requestSize request ≤ reflectable) (honce : middlewares.count .test ≤ 1)
    (h : Pending middlewares response) :
    Fits (runMiddlewares surroundings request middlewares response >>= fun response =>
      sendResponse response.toResponse) := by
  induction middlewares generalizing response with
  | nil => exact sendResponse_text h.stream (fits_responseToString_of_le h.status h.room)
  | cons m middlewares ih =>
    have hrest : middlewares.count .test ≤ 1 := List.count_le_count_cons.trans honce
    -- the reflected request is in the response at most once
    have hm : m = .test → .test ∉ middlewares := by
      rintro rfl
      rw [List.count_cons_self] at honce
      exact List.count_eq_zero.mp (by omega)
    obtain ⟨hfits, houtcome⟩ := handler_outcome surroundings hsize hm h
    rw [runMiddlewares, bind_assoc, fits_bind]
    refine ⟨hfits, fun (turnOver, response') hrun => ?_⟩
    have hnext := houtcome turnOver response' hrun
    unfold Leaves at hnext
    dsimp only
    split at hnext
    · rw [if_pos ‹_›]
      exact hnext
    · rw [if_neg ‹_›]
      exact ih hrest hnext

end Handlers

/-- A request that is too large makes the response of the reflecting handler alone too
long. -/
theorem requestSize_le_of_test {request : Request} {surroundings : Surroundings}
    (h : Fits (runMiddlewares surroundings request [.test] Answer.create >>= fun response =>
      sendResponse response.toResponse)) : requestSize request ≤ reflectable := by
  rw [runMiddlewares, bind_assoc, fits_bind] at h
  obtain ⟨hhandler, hrest⟩ := h
  change Fits (middlewareTestHandler request Answer.create) at hhandler
  change ∀ a, middlewareTestHandler request Answer.create = .ok a → _ at hrest
  -- the handler has made its text
  obtain ⟨⟨turnOver, response⟩, hrun⟩ := exists_middlewareTestHandler hhandler
  have hsend := hrest _ hrun
  obtain ⟨rfl, rfl⟩ := middlewareTestHandler_ok hrun
  dsimp only at hsend
  rw [if_neg (by simp [Answer.setHeader, Answer.create, responseCreate]), runMiddlewares,
    pure_bind] at hsend
  -- and the whole response has fitted
  have htext := (fits_responseToString (by exact List.mem_cons_self)).mp (fits_bind.mp hsend).1
  change headersSize (Answer.create.setHeader _ _).headers + (requestText request _).length +
    (decimal (requestText request _).length).length + 38 ≤ _ at htext
  rw [headersSize_setHeader, length_requestText] at htext
  have hname : (bytes "Content-Type").length = 12 := rfl
  have hvalue : (bytes "text/plain").length = 10 := rfl
  have hnone : headersSize Answer.create.headers = 0 := rfl
  have hbuffer : textBufferSize = 1048576 := rfl
  by_contra hlarge
  -- a length beyond the bound has seven digits
  have hdigits : ¬(decimal ((requestSize request + 45 : ℕ) : ℤ)).length ≤ 6 := by
    rw [length_decimal_natCast_le_iff (by decide)]
    unfold reflectable at hlarge
    omega
  unfold reflectable at hlarge
  omega

/-- The start of the epoch. -/
def epoch : Tm where
  sec := 0
  min := 0
  hour := 0
  mday := 1
  mon := 0
  year := 70
  wday := 4
  year_range := by decide

/-- The rest of `handle_client` behind the parser. -/
theorem handleClient_of_parse {input : List UInt8} {request : Request}
    (hparse : requestParse (receiveBuffer bufferSize input) = .ok request)
    (middlewares : List Middleware) (surroundings : Surroundings) :
    handleClient middlewares surroundings input =
      (runMiddlewares surroundings request middlewares Answer.create >>= fun response =>
        sendResponse response.toResponse) := by
  unfold handleClient
  rw [hparse]
  rfl

/-- If all responses to a request fit, it can be reflected. -/
theorem requestSize_le_of_fits {input : List UInt8} {request : Request}
    (hparse : requestParse (receiveBuffer bufferSize input) = .ok request)
    (h : ∀ middlewares surroundings, middlewares.count .test ≤ 1 →
      Fits (handleClient middlewares surroundings input)) : requestSize request ≤ reflectable := by
  have htest := h [.test] { now := epoch, fopen := fun _ => none } (by decide)
  rw [handleClient_of_parse hparse] at htest
  exact requestSize_le_of_test htest

/-- **When the buffers suffice**: for every request that is accepted, no chain that reflects
it at most once makes a text run out of its buffer, exactly if method, path, headers and
body, with four bytes more for each header, come to at most 1048460 bytes. -/
theorem handleClient_fits_iff {input : List UInt8} {request : Request}
    (hparse : requestParse (receiveBuffer bufferSize input) = .ok request) :
    (∀ middlewares surroundings, middlewares.count .test ≤ 1 →
      Fits (handleClient middlewares surroundings input)) ↔ requestSize request ≤ 1048460 := by
  constructor
  · exact requestSize_le_of_fits hparse
  · intro hsize middlewares surroundings honce
    rw [handleClient_of_parse hparse]
    exact runMiddlewares_fits surroundings hsize honce Pending.create

theorem replicate_clean (n : ℕ) : ∀ c ∈ List.replicate n (120 : UInt8), c ≠ 0 := by
  intro c hc
  rw [List.eq_of_mem_replicate hc]
  decide

/-- A request whose body is a number of bytes `x`. -/
def largeBody (n : ℕ) : RequestHead :=
  { oneHeader with body := List.replicate n 120, body_clean := replicate_clean n }

/-- What it is read as. -/
def largeRequest (n : ℕ) : Request where
  method := bytes "POST"
  path := bytes "/"
  headers := { fields := oneHeader.lines.map HeadLine.stored }
  body := List.replicate n 120

theorem length_largeBody (n : ℕ) : (largeBody n).text.length = 27 + n := by
  have hhead : (largeBody 0).text.length = 27 := by decide
  have hsplit : (largeBody n).text = (largeBody 0).text ++ List.replicate n 120 := by
    simp only [RequestHead.text, largeBody, List.replicate_zero, List.append_nil]
  rw [hsplit, List.length_append, hhead, List.length_replicate]

theorem requestParse_largeBody {n : ℕ} (h : (largeBody n).text.length < bufferSize) :
    requestParse (receiveBuffer bufferSize (largeBody n).text) = .ok (largeRequest n) :=
  (largeBody n).requestParse_text (show oneHeader.lines ≠ [] by decide) h

theorem requestSize_largeRequest (n : ℕ) : requestSize (largeRequest n) = 14 + n := by
  rw [requestSize, largeRequest, List.length_replicate]
  rfl

/-- The largest body with which the request can be reflected, and one byte more. -/
theorem handleClient_fits_iff_largeBody :
    (∀ middlewares surroundings, middlewares.count .test ≤ 1 →
      Fits (handleClient middlewares surroundings (largeBody 1048446).text)) ∧
    ¬∀ middlewares surroundings, middlewares.count .test ≤ 1 →
      Fits (handleClient middlewares surroundings (largeBody 1048447).text) := by
  have hfits : ∀ n ≤ 1048447, (largeBody n).text.length < bufferSize := by
    intro n hn
    rw [length_largeBody, bufferSize]
    omega
  constructor
  · apply (handleClient_fits_iff (requestParse_largeBody (hfits _ (by omega)))).mpr
    rw [requestSize_largeRequest]
  · rw [handleClient_fits_iff (requestParse_largeBody (hfits _ le_rfl)), requestSize_largeRequest]
    omega

/-- With a body of 1048500 bytes the request fits into the receive buffer, and the response
of the reflecting handler does not fit into its own. -/
theorem not_fits_largeBody :
    (largeBody 1048500).text.length < bufferSize ∧
    ¬∀ middlewares surroundings, middlewares.count .test ≤ 1 →
      Fits (handleClient middlewares surroundings (largeBody 1048500).text) := by
  have hfits : (largeBody 1048500).text.length < bufferSize := by
    rw [length_largeBody, bufferSize]
    omega
  refine ⟨hfits, fun hall => ?_⟩
  have hle := requestSize_le_of_fits (requestParse_largeBody hfits) hall
  rw [requestSize_largeRequest, reflectable] at hle
  omega

end NetworkServers.Http
