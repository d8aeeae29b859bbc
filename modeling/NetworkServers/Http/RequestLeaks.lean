import NetworkServers.Http.MainChain
import NetworkServers.Http.RequestObjects

/-!
# What a Request Leaks

Every handler, and so `handle_client` as a whole, implements on the heap what it does on values.
No access to the heap goes wrong, whatever the chain of middlewares and the request are. Behind
`handle_client` two kinds of strings are still there: the paths that the static handler has made,
and the bodies that a later handler has replaced. The chain of `main` leaves nothing.
-/

namespace NetworkServers.Http.RequestMemory

open NetworkServers.CString (bytes)
open NetworkServers.HeapMemory NetworkServers.Http.BodyOwnership NetworkServers.Machine

/-! ## Responses -/

/-- What belongs to the body of a response. -/
inductive OwnsBody : BodyPointer → Option (List UInt8) → Bool → Cells → Prop where
  | null : OwnsBody .null none false 0
  | literal (text : List UInt8) : OwnsBody (.literal text) (some text) true 0
  | heap (q : ℕ) (text : List UInt8) : OwnsBody (.heap q) (some text) false {(q, .text text)}

/-- What belongs to the stream of a response. -/
inductive OwnsStream : Option ℕ → Option (List (List UInt8)) → Cells → Prop where
  | none : OwnsStream none none 0
  | some (q : ℕ) (reads : List (List UInt8)) : OwnsStream (some q) (some reads) {(q, .file reads)}

/-- A response, and everything that it points to but its stream. -/
def OwnsClosed (p : ℕ) (answer : Answer) (stream : Option ℕ) (own : Cells) : Prop :=
  ∃ headers body table bodyCells, OwnsTable headers answer.headers table ∧
    OwnsBody body answer.body answer.literalBody bodyCells ∧
    own = {(p, .response ⟨answer.status, headers, body, stream⟩)} + (table + bodyCells)

/-- A response, and everything that it points to. -/
def OwnsResponse (p : ℕ) (answer : Answer) (own : Cells) : Prop :=
  ∃ stream cells streamCells, OwnsClosed p answer stream cells ∧
    OwnsStream stream answer.bodyStream streamCells ∧ own = cells + streamCells

/-- Strings that nothing points to any more. -/
def Lost (own : Cells) (texts : List (List UInt8)) : Prop :=
  own.map Prod.snd = (texts : Multiset (List UInt8)).map Object.text

/-- The string of its own that a response has as its body. -/
def ownText (answer : Answer) : List (List UInt8) :=
  if answer.literalBody then [] else answer.body.toList

theorem Lost.none : Lost 0 [] := rfl

theorem Lost.single (q : ℕ) (text : List UInt8) : Lost {(q, .text text)} [text] := rfl

theorem Lost.add {own own' : Cells} {texts texts' : List (List UInt8)} (h : Lost own texts)
    (h' : Lost own' texts') : Lost (own + own') (texts ++ texts') := by
  rw [Lost, Multiset.map_add, h, h', ← Multiset.map_add, Multiset.coe_add]

section Responses

variable {own rest cells : Cells} {p : ℕ} {answer : Answer} {stream : Option ℕ}

theorem OwnsBody.lost {body : BodyPointer} {bodyCells : Cells}
    (h : OwnsBody body answer.body answer.literalBody bodyCells) :
    Lost bodyCells (ownText answer) := by
  unfold ownText
  generalize answer.body = text at h ⊢
  generalize answer.literalBody = literal at h ⊢
  cases h with
  | null | literal | heap => rfl

theorem implements_responseCreate (own : Cells) :
    Implements own responseCreate (.ok Answer.create)
      fun p answer own' => answer.bodyStream = none ∧
        ∃ cells, OwnsResponse p answer cells ∧ own' = cells + own := by
  unfold responseCreate
  refine (Implements.alloc _ _).step ?_
  rintro p _ rfl
  refine (implements_headersCreate _).step ?_
  rintro headers _ ⟨table, htable, rfl⟩
  refine (Implements.store (add_left_comm _ _ _) _).step ?_
  rintro _ _ rfl
  refine .ret ⟨rfl, _, ⟨none, _, _, ⟨headers, .null, table, _, htable, .null, rfl⟩, .none, rfl⟩, ?_⟩
  simp [Answer.create, Http.responseCreate]

theorem implements_setContentType (h : OwnsResponse p answer own) (value : List UInt8) :
    Implements own (setContentType p value)
      (.ok (answer.setHeader (bytes "Content-Type") value))
      fun _ answer' own' => OwnsResponse p answer' own' := by
  obtain ⟨stream, _, streamCells, ⟨headers, body, table, bodyCells, htable, hbody, rfl⟩, hstream,
    rfl⟩ := h
  unfold setContentType
  refine Implements.step (.load (Implements.mem_of_eq (add_assoc _ _ _)) rfl) ?_
  rintro _ _ ⟨rfl, rfl⟩
  -- only the table changes: the body and the stream are its frame
  have hown : {(p, Object.response ⟨answer.status, headers, body, stream⟩)} + (table + bodyCells) +
      streamCells = table + ({(p, Object.response ⟨answer.status, headers, body, stream⟩)} +
        (bodyCells + streamCells)) := by
    abel
  refine ((implements_headersSet htable _ _).frame hown).last ?_
  rintro _ _ ⟨table', htable', rfl⟩
  refine ⟨stream, _, streamCells, ⟨headers, body, table', bodyCells, htable', hbody, rfl⟩, hstream, ?_⟩
  simp only [Answer.setHeader]
  abel

/-- A new body takes the place of the old one, and nothing points to that any more. -/
theorem implements_setBody (h : OwnsResponse p answer cells) (status : ℤ) {body : BodyPointer}
    {text : List UInt8} {literal : Bool} {bodyCells : Cells}
    (hbody : OwnsBody body (some text) literal bodyCells) (hown : own = cells + bodyCells) :
    Implements own (setBody p status body)
      (.ok { answer with status := status, body := some text, literalBody := literal })
      fun _ answer' own' => ∃ cells lost, OwnsResponse p answer' cells ∧
        Lost lost (ownText answer) ∧ own' = cells + lost := by
  obtain ⟨stream, _, streamCells, ⟨headers, old, table, oldCells, htable, hold, rfl⟩, hstream,
    rfl⟩ := h
  rw [add_assoc, add_assoc] at hown
  unfold setBody
  refine Implements.step (.load (Implements.mem_of_eq hown) rfl) ?_
  rintro _ _ ⟨rfl, rfl⟩
  -- the store forgets the pointer to the old body, whose string stays live
  refine (Implements.store hown _).last ?_
  rintro _ _ rfl
  refine ⟨_, oldCells, ⟨stream, _, streamCells, ⟨headers, body, table, bodyCells, htable, hbody, rfl⟩,
    hstream, rfl⟩, hold.lost, ?_⟩
  abel

/-- The object tells whether there is a stream. -/
theorem OwnsResponse.exists_object (h : OwnsResponse p answer own) :
    ∃ object, (p, .response object) ∈ own ∧
      object.bodyStream.isSome = answer.bodyStream.isSome := by
  obtain ⟨stream, _, streamCells, ⟨headers, body, table, bodyCells, -, -, rfl⟩, hstream, rfl⟩ := h
  refine ⟨⟨answer.status, headers, body, stream⟩, by simp, ?_⟩
  generalize answer.bodyStream = reads at hstream ⊢
  cases hstream with
  | none | some => rfl

/-- A stream can be stored where there is none. -/
theorem OwnsResponse.openStream (h : OwnsResponse p answer own) (hstream : answer.bodyStream = none) :
    ∃ object rest, own = {(p, .response object)} + rest ∧ ∀ q reads,
      OwnsResponse p { answer with bodyStream := some reads }
        ({(p, .response { object with bodyStream := some q })} + (rest + {(q, .file reads)})) := by
  obtain ⟨stream, _, streamCells, ⟨headers, body, table, bodyCells, htable, hbody, rfl⟩, howns,
    rfl⟩ := h
  rw [hstream] at howns
  cases howns
  refine ⟨_, table + bodyCells, add_zero _, fun q reads => ?_⟩
  exact ⟨some q, _, _, ⟨headers, body, table, bodyCells, htable, hbody, rfl⟩, .some q reads,
    (add_assoc _ _ _).symm⟩

end Responses

/-! ## The handlers -/

/-- The strings that are lost in a handler: the path that the static handler makes, and the body
that a handler replaces. -/
def lostBy (surroundings : Surroundings) (request : Request) (answer : Answer) :
    Middleware → List (List UInt8)
  | .logger => []
  | .homepage => if request.path = bytes "/" then ownText answer else []
  | .notFound | .test => ownText answer
  | .serveStatic =>
    (bytes "public" ++ staticPath request) ::
      if Refused surroundings.fopen request then ownText answer else []

/-- The response behind a handler and the lost strings, besides the request. -/
def HandsOn (response : ℕ) (requestCells : Cells) (lost : List (List UInt8)) (turnOver : Bool)
    (result : Bool × Answer) (own : Cells) : Prop :=
  turnOver = result.1 ∧ ∃ cells lostCells, OwnsResponse response result.2 cells ∧
    Lost lostCells lost ∧ own = cells + (requestCells + lostCells)

/-- The pointer points to a string. -/
def PointsAt (own : Cells) (pointer : Option ℕ) (text : List UInt8) : Prop :=
  ∃ q, pointer = some q ∧ (q, .text text) ∈ own

theorem PointsAt.mono {own own' : Cells} {pointer : Option ℕ} {text : List UInt8}
    (h : PointsAt own pointer text) (hle : own ≤ own') : PointsAt own' pointer text := by
  obtain ⟨q, hpointer, hmem⟩ := h
  exact ⟨q, hpointer, Multiset.mem_of_le hle hmem⟩

/-- What a handler can read of a request. -/
theorem OwnsRequest.exists_object {cells : Cells} {p : ℕ} {request : Request}
    (h : OwnsRequest p request cells) :
    ∃ object table, (p, .request object) ∈ cells ∧ PointsAt cells object.method request.method ∧
      PointsAt cells object.path request.path ∧ PointsAt cells object.body request.body ∧
      OwnsTable object.headers request.headers table ∧ table ≤ cells := by
  obtain ⟨method, path, headers, body, table, htable, rfl⟩ := h
  refine ⟨⟨some method, some path, headers, some body⟩, table, by simp, ⟨method, rfl, by simp⟩,
    ⟨path, rfl, by simp⟩, ⟨body, rfl, by simp⟩, htable, ?_⟩
  simp only [← add_assoc]
  exact Multiset.le_add_left _ _

/-- A string is read behind a pointer. -/
theorem implements_readPointer {own : Cells} {pointer : Option ℕ} {text : List UInt8}
    {β γ : Type} {f : List UInt8 → Action β} {z : Except RequestFault γ} {post : β → γ → Cells → Prop}
    (h : PointsAt own pointer text) (hnext : Implements own (f text) z post) :
    Implements own (nonNull pointer >>= fun q => readText q >>= f) z post := by
  obtain ⟨q, rfl, hmem⟩ := h
  refine (implements_nonNull own q).step ?_
  rintro _ _ ⟨rfl, rfl⟩
  refine (implements_readText hmem).step ?_
  rintro _ _ ⟨rfl, rfl⟩
  exact hnext

section Handlers

variable {own responseCells requestCells : Cells} {p response : ℕ} {request : Request}
  {answer : Answer}

theorem implements_logger (hrequest : OwnsRequest p request requestCells)
    (hresponse : OwnsResponse response answer responseCells) :
    Implements (responseCells + requestCells) (middlewareLoggerHandler p response)
      (.ok (Http.middlewareLoggerHandler request answer)) (HandsOn response requestCells []) := by
  have hle := Multiset.le_add_left requestCells responseCells
  obtain ⟨object, _, hobject, hmethod, hpath, -, -, -⟩ := hrequest.exists_object
  unfold middlewareLoggerHandler
  refine Implements.step (.load (Multiset.mem_of_le hle hobject) rfl) ?_
  rintro _ _ ⟨rfl, rfl⟩
  refine implements_readPointer (hmethod.mono hle) ?_
  refine implements_readPointer (hpath.mono hle) ?_
  exact .ret ⟨rfl, _, 0, hresponse, .none, by rw [add_zero]⟩

/-- The last steps of a handler that sets a string of its own as the body. -/
theorem implements_setOwnBody (hresponse : OwnsResponse response answer responseCells) (status : ℤ)
    (q : ℕ) (text : List UInt8) (turnOver : Bool) :
    Implements ({(q, .text text)} + (responseCells + requestCells))
      (do
        setBody response status (.heap q)
        return turnOver)
      (.ok (turnOver, { answer with status := status, body := some text, literalBody := false }))
      (HandsOn response requestCells (ownText answer)) := by
  have hown : {(q, Object.text text)} + (responseCells + requestCells) =
      responseCells + {(q, Object.text text)} + requestCells := by
    abel
  refine ((implements_setBody hresponse status (.heap q text) rfl).frame hown).step ?_
  rintro _ _ ⟨_, ⟨cells, lost, hcells, hlost, rfl⟩, rfl⟩
  refine .ret ⟨rfl, cells, lost, hcells, hlost, ?_⟩
  abel

theorem implements_notFound (hresponse : OwnsResponse response answer responseCells) :
    Implements (responseCells + requestCells) (middleware404Handler p response)
      (.ok (Http.middleware404Handler request answer))
      (HandsOn response requestCells (ownText answer)) := by
  unfold middleware404Handler
  refine ((implements_setContentType hresponse _).frame rfl).step ?_
  rintro _ _ ⟨cells, hcells, rfl⟩
  refine (implements_strdup _ _).step ?_
  rintro q _ rfl
  exact implements_setOwnBody hcells 404 q _ false

theorem implements_homepage (now : Tm) (hrequest : OwnsRequest p request requestCells)
    (hresponse : OwnsResponse response answer responseCells) :
    Implements (responseCells + requestCells) (middlewareHomepageHandler now p response)
      (.ok (Http.middlewareHomepageHandler now request answer))
      (HandsOn response requestCells
        (if request.path = bytes "/" then ownText answer else [])) := by
  have hle := Multiset.le_add_left requestCells responseCells
  obtain ⟨object, _, hobject, -, hpath, -, -, -⟩ := hrequest.exists_object
  unfold middlewareHomepageHandler Http.middlewareHomepageHandler
  refine Implements.step (.load (Multiset.mem_of_le hle hobject) rfl) ?_
  rintro _ _ ⟨rfl, rfl⟩
  refine implements_readPointer (hpath.mono hle) ?_
  -- only the root path is answered; elsewhere the next handler gets its turn
  split
  · refine ((implements_setContentType hresponse _).frame rfl).step ?_
    rintro _ _ ⟨cells, hcells, rfl⟩
    -- the page is printed into a buffer, which is then cut to its length
    refine (implements_strdup _ _).step ?_
    rintro q _ rfl
    refine (Implements.realloc rfl).step ?_
    rintro q _ rfl
    refine (implements_readText (Implements.mem_of_eq rfl)).step ?_
    rintro _ _ ⟨rfl, rfl⟩
    refine (Implements.store rfl _).step ?_
    rintro _ _ rfl
    exact implements_setOwnBody hcells 200 q _ false
  · exact .ret ⟨rfl, _, 0, hresponse, .none, by rw [add_zero]⟩

theorem implements_test (hrequest : OwnsRequest p request requestCells)
    (hresponse : OwnsResponse response answer responseCells) :
    Implements (responseCells + requestCells) (middlewareTestHandler p response)
      (onText (Http.middlewareTestHandler request answer))
      (HandsOn response requestCells (ownText answer)) := by
  unfold middlewareTestHandler Http.middlewareTestHandler
  refine ((implements_setContentType hresponse _).frame rfl).step ?_
  rintro _ _ ⟨cells, hcells, rfl⟩
  refine (implements_strdup _ _).step ?_
  rintro buffer _ rfl
  have hle : requestCells ≤ {(buffer, Object.text [])} + (cells + requestCells) :=
    (Multiset.le_add_left _ _).trans (Multiset.le_add_left _ _)
  obtain ⟨object, table, hobject, hmethod, hpath, hbody, htable, htableLe⟩ := hrequest.exists_object
  obtain ⟨rest, hrest⟩ := Multiset.le_iff_exists_add.mp htableLe
  refine Implements.step (.load (Multiset.mem_of_le hle hobject) rfl) ?_
  rintro _ _ ⟨rfl, rfl⟩
  have hown : {(buffer, Object.text [])} + (cells + requestCells) =
      table + ({(buffer, Object.text [])} + (cells + rest)) := by
    rw [hrest]
    abel
  dsimp only
  rw [onText_bind]
  refine ((implements_headersToString htable).frame hown).bind ?_
  rintro lines text _ ⟨_, rfl, rfl⟩
  -- the rendered headers are one string more
  rw [add_assoc, ← hown]
  have hmore := hle.trans (Multiset.le_add_left _ {(lines, Object.text text)})
  refine implements_readPointer (hmethod.mono hmore) ?_
  refine implements_readPointer (hpath.mono hmore) ?_
  refine (implements_readText (Implements.mem_of_eq rfl)).step ?_
  rintro _ _ ⟨rfl, rfl⟩
  refine implements_readPointer (hbody.mono hmore) ?_
  unfold requestText
  split
  · refine (Implements.store (add_left_comm _ _ _) _).step ?_
    rintro _ _ rfl
    refine (Implements.free (add_left_comm _ _ _)).step ?_
    rintro _ _ rfl
    refine (Implements.realloc rfl).step ?_
    rintro q _ rfl
    exact implements_setOwnBody hcells 200 q _ true
  · exact .raise _

/-- The last steps of the static handler when it opens nothing. -/
theorem implements_refuse (hresponse : OwnsResponse response answer responseCells) {status : ℤ}
    {text fullPath : List UInt8} (q : ℕ) :
    Implements ({(q, .text fullPath)} + (responseCells + requestCells))
      (do
        setBody response status (.literal text)
        return true)
      (.ok (true, { answer with status := status, body := some text, literalBody := true }))
      (HandsOn response requestCells (fullPath :: ownText answer)) := by
  have hown : {(q, Object.text fullPath)} + (responseCells + requestCells) =
      responseCells + (requestCells + {(q, Object.text fullPath)}) := by
    abel
  refine ((implements_setBody hresponse status (.literal text) (add_zero _).symm).frame hown).step ?_
  rintro _ _ ⟨_, ⟨cells, lost, hcells, hlost, rfl⟩, rfl⟩
  refine .ret ⟨rfl, cells, {(q, .text fullPath)} + lost, hcells, (Lost.single q fullPath).add hlost, ?_⟩
  abel

theorem implements_serveStatic (fopen : List UInt8 → Option (List (List UInt8)))
    (hrequest : OwnsRequest p request requestCells)
    (hresponse : OwnsResponse response answer responseCells) (hstream : answer.bodyStream = none) :
    Implements (responseCells + requestCells) (middlewareStaticHandler fopen p response)
      (onText (Http.middlewareStaticHandler fopen request answer))
      (HandsOn response requestCells ((bytes "public" ++ staticPath request) ::
        if Refused fopen request then ownText answer else [])) := by
  have hle := Multiset.le_add_left requestCells responseCells
  obtain ⟨object, _, hobject, -, hpath, -, -, -⟩ := hrequest.exists_object
  unfold middlewareStaticHandler Http.middlewareStaticHandler
  refine Implements.step (.load (Multiset.mem_of_le hle hobject) rfl) ?_
  rintro _ _ ⟨rfl, rfl⟩
  refine implements_readPointer (hpath.mono hle) ?_
  have hstatic : (if request.path = bytes "/" then bytes "/index.html" else request.path) =
      staticPath request := rfl
  dsimp only
  rw [hstatic]
  -- the full path gets a string of its own, which nothing frees
  refine (implements_strdup _ _).step ?_
  rintro q _ rfl
  -- both ways to refuse end alike; an opened file is handed on in the response
  by_cases hdots : bytes ".." <:+: bytes "public" ++ staticPath request
  · rw [if_pos hdots, if_pos hdots, if_pos (.inl hdots)]
    exact implements_refuse hresponse q
  rw [if_neg hdots, if_neg hdots]
  cases hfile : fopen (bytes "public" ++ staticPath request) with
  | none =>
    rw [if_pos (.inr hfile)]
    exact implements_refuse hresponse q
  | some reads =>
    have hopened : ¬Refused fopen request := by
      simp [Refused, hdots, hfile]
    obtain ⟨opened, rest, rfl, hopen⟩ := hresponse.openStream hstream
    refine (Implements.alloc _ _).step ?_
    rintro file _ rfl
    have hown : {(file, Object.file reads)} + ({(q, Object.text (bytes "public" ++
        staticPath request))} + ({(response, Object.response opened)} + rest + requestCells)) =
        {(response, .response opened)} + (rest + {(file, .file reads)} + (requestCells +
          {(q, .text (bytes "public" ++ staticPath request))})) := by
      abel
    refine Implements.step (.load (Implements.mem_of_eq hown) rfl) ?_
    rintro _ _ ⟨rfl, rfl⟩
    refine (Implements.store hown _).step ?_
    rintro _ _ rfl
    -- a path without a dot has no extension to look up
    cases strrchr (staticPath request) 46 with
    | none => exact .raise _
    | some ext =>
      rw [if_neg hopened]
      refine ((implements_setContentType (hopen file reads) _).frame (add_assoc _ _ _).symm).step ?_
      rintro _ _ ⟨cells, hcells, rfl⟩
      exact .ret ⟨rfl, cells, {(q, .text (bytes "public" ++ staticPath request))}, hcells,
        .single _ _, rfl⟩

/-- **Every handler** does on the heap what it does on values, and loses these strings. -/
theorem implements_handler (surroundings : Surroundings) (m : Middleware)
    (hrequest : OwnsRequest p request requestCells)
    (hresponse : OwnsResponse response answer responseCells) (hstream : answer.bodyStream = none) :
    Implements (responseCells + requestCells) (handler surroundings p response m)
      (onText (m.handler surroundings request answer))
      (HandsOn response requestCells (lostBy surroundings request answer m)) := by
  cases m with
  | logger => exact implements_logger hrequest hresponse
  | homepage => exact implements_homepage surroundings.now hrequest hresponse
  | notFound => exact implements_notFound (p := p) hresponse
  | serveStatic => exact implements_serveStatic surroundings.fopen hrequest hresponse hstream
  | test => exact implements_test hrequest hresponse

end Handlers

/-! ## The chain -/

/-- The loop of `handle_client` on values, with the strings that it loses. -/
def runLosing (surroundings : Surroundings) (request : Request) :
    List Middleware → Answer → Except CString.Fault (Answer × List (List UInt8))
  | [], response => return (response, [])
  | middleware :: middlewares, response => do
    let lost := lostBy surroundings request response middleware
    let (turnOver, response) ← middleware.handler surroundings request response
    if ¬turnOver ∨ response.bodyStream.isSome then return (response, lost)
    else do
      let (response, later) ← runLosing surroundings request middlewares response
      return (response, lost ++ later)

/-- Apart from the lost strings it is the loop of `handle_client`. -/
theorem runLosing_fst (surroundings : Surroundings) (request : Request)
    (middlewares : List Middleware) (answer : Answer) :
    (runLosing surroundings request middlewares answer).map Prod.fst =
      Http.runMiddlewares surroundings request middlewares answer := by
  induction middlewares generalizing answer with
  | nil => rfl
  | cons m middlewares ih =>
    rw [runLosing, Http.runMiddlewares]
    -- both loops ask the same handler, and stop at the same one
    cases hrun : m.handler surroundings request answer with
    | error fault => rfl
    | ok result =>
      simp only [ok_bind]
      split
      · rfl
      · rw [← ih]
        cases runLosing surroundings request middlewares result.2 <;> rfl

section Chain

variable {responseCells requestCells : Cells} {p response : ℕ} {request : Request} {answer : Answer}

theorem implements_runMiddlewares (surroundings : Surroundings) (middlewares : List Middleware)
    (hrequest : OwnsRequest p request requestCells)
    (hresponse : OwnsResponse response answer responseCells) (hstream : answer.bodyStream = none) :
    Implements (responseCells + requestCells) (runMiddlewares surroundings p response middlewares)
      (onText (runLosing surroundings request middlewares answer))
      fun _ result own => ∃ cells lostCells, OwnsResponse response result.1 cells ∧
        Lost lostCells result.2 ∧ own = cells + (requestCells + lostCells) := by
  induction middlewares generalizing answer responseCells with
  | nil => exact .ret ⟨_, 0, hresponse, .none, by rw [add_zero]⟩
  | cons m middlewares ih =>
    rw [runMiddlewares, runLosing]
    dsimp only
    rw [onText_bind]
    refine (implements_handler surroundings m hrequest hresponse hstream).bind ?_
    rintro _ ⟨turnOver, answer'⟩ _ ⟨rfl, cells, lost, hcells, hlost, rfl⟩
    -- the loop reads the stream of the response to see whether it is over
    obtain ⟨object, hobject, hsome⟩ := hcells.exists_object
    refine Implements.step (.load (Multiset.mem_of_le (Multiset.le_add_right _ _) hobject) rfl) ?_
    rintro _ _ ⟨rfl, rfl⟩
    rw [hsome]
    dsimp only
    split
    · exact .ret ⟨cells, lost, hcells, hlost, rfl⟩
    · rename_i hgoesOn
      -- the next handler finds no stream, as the first one has
      have hnone : answer'.bodyStream = none := by
        simpa using (not_or.mp hgoesOn).2
      rw [onText_bind]
      refine ((ih hcells hnone).frame (add_assoc _ _ _).symm).map ?_
      rintro _ ⟨last, later⟩ _ ⟨_, ⟨cells', lost', hcells', hlost', rfl⟩, rfl⟩
      refine ⟨cells', lost + lost', hcells', hlost.add hlost', ?_⟩
      abel

end Chain

/-- The static handler loses its path where it does not find the file. -/
example : (runLosing { now := epoch, fopen := fun _ => none }
      { method := bytes "GET", path := bytes "/page", headers := Http.headersCreate, body := [] }
      [.serveStatic, .notFound] Answer.create).map Prod.snd = .ok [bytes "public/page"] := by
  decide +kernel

/-! ## Writing the response -/

section Output

variable {own : Cells} {p : ℕ} {answer : Answer} {stream : Option ℕ}

theorem implements_readBody {body : BodyPointer} {text : Option (List UInt8)} {literal : Bool}
    {bodyCells : Cells} (h : OwnsBody body text literal bodyCells) (hle : bodyCells ≤ own) :
    Implements own (readBody body) (.ok ())
      fun content _ own' => content = text.getD [] ∧ own' = own := by
  cases h with
  | null | literal => exact .ret ⟨rfl, rfl⟩
  | heap q text =>
    exact implements_readText (Multiset.mem_of_le hle (Multiset.mem_singleton_self _))

theorem implements_responseToString (h : OwnsClosed p answer stream own) :
    Implements own (responseToString p) (onText (Http.responseToString answer.toResponse))
      fun q text own' => own' = {(q, .text text)} + own := by
  obtain ⟨headers, body, table, bodyCells, htable, hbody, rfl⟩ := h
  unfold responseToString Http.responseToString
  refine (implements_strdup _ _).step ?_
  rintro buffer _ rfl
  refine Implements.step (.load (Implements.mem_of_eq (add_left_comm _ _ _)) rfl) ?_
  rintro _ _ ⟨rfl, rfl⟩
  refine (implements_readBody hbody ?_).step ?_
  · exact (Multiset.le_add_left _ _).trans ((Multiset.le_add_left _ _).trans (Multiset.le_add_left _ _))
  rintro _ _ ⟨rfl, rfl⟩
  dsimp only
  rw [onText_bind]
  have hown := add_pull₂ {(buffer, Object.text [])}
    {(p, Object.response ⟨answer.status, headers, body, stream⟩)} table bodyCells
  -- the table renders itself, with the rest as its frame
  refine ((implements_headersToString htable).frame hown).bind ?_
  rintro lines text _ ⟨_, rfl, rfl⟩
  rw [add_assoc, ← hown]
  refine (implements_readText (Implements.mem_of_eq rfl)).step ?_
  rintro _ _ ⟨rfl, rfl⟩
  -- a text that does not fit into the buffer is a fault of both
  split
  · refine (Implements.store (add_left_comm _ _ _) _).step ?_
    rintro _ _ rfl
    refine (Implements.free (add_left_comm _ _ _)).step ?_
    rintro _ _ rfl
    refine (Implements.realloc rfl).last ?_
    rintro q _ rfl
    rfl
  · exact .raise _

/-- The response is written, and its stream is closed. -/
theorem implements_sendResponse (h : OwnsResponse p answer own) :
    Implements own (sendResponse p) (onText (Http.sendResponse answer.toResponse))
      fun writes writes' own' => writes = writes' ∧ ∃ stream, OwnsClosed p answer stream own' := by
  obtain ⟨stream, cells, streamCells, hclosed, hstream, rfl⟩ := h
  unfold sendResponse Http.sendResponse
  -- without a stream the whole text is one write, with one the blocks are a write each
  cases hreads : answer.bodyStream with
  | none =>
    rw [hreads] at hstream
    cases hstream
    rw [add_zero]
    obtain ⟨headers, body, table, bodyCells, htable, hbody, rfl⟩ := hclosed
    refine Implements.step (.load (Implements.mem_of_eq rfl) rfl) ?_
    rintro _ _ ⟨rfl, rfl⟩
    dsimp only
    rw [onText_bind]
    refine (implements_responseToString ⟨headers, body, table, bodyCells, htable, hbody, rfl⟩).bind ?_
    rintro q text _ rfl
    refine (implements_readText (Implements.mem_of_eq rfl)).step ?_
    rintro _ _ ⟨rfl, rfl⟩
    refine (Implements.free rfl).step ?_
    rintro _ _ rfl
    exact .ret ⟨rfl, none, headers, body, table, bodyCells, htable, hbody, rfl⟩
  | some reads =>
    rw [hreads] at hstream
    cases hstream with
    | some q =>
      obtain ⟨headers, body, table, bodyCells, htable, hbody, rfl⟩ := hclosed
      refine Implements.step (.load (Implements.mem_of_eq (add_assoc _ _ _)) rfl) ?_
      rintro _ _ ⟨rfl, rfl⟩
      dsimp only
      rw [onText_bind]
      have hown : {(p, Object.response ⟨answer.status, headers, body, some q⟩)} +
          (table + bodyCells) + {(q, .file reads)} = table +
            ({(p, .response ⟨answer.status, headers, body, some q⟩)} +
              (bodyCells + {(q, .file reads)})) := by
        abel
      refine ((implements_headersToString htable).frame hown).bind ?_
      rintro lines text _ ⟨_, rfl, rfl⟩
      rw [add_assoc, ← hown]
      refine (implements_readText (Implements.mem_of_eq rfl)).step ?_
      rintro _ _ ⟨rfl, rfl⟩
      refine (Implements.free rfl).step ?_
      rintro _ _ rfl
      refine (implements_strdup _ _).step ?_
      rintro buffer _ rfl
      refine Implements.step (.load (show (q, Object.file reads) ∈ _ by simp) rfl) ?_
      rintro _ _ ⟨rfl, rfl⟩
      refine (Implements.free rfl).step ?_
      rintro _ _ rfl
      -- `fclose`
      refine (Implements.free (add_comm _ _)).step ?_
      rintro _ _ rfl
      exact .ret ⟨rfl, some q, headers, body, table, bodyCells, htable, hbody, rfl⟩

/-- `response_destroy` on the body: a literal cannot be freed. -/
def freeBody (answer : Answer) : Except RequestFault Unit :=
  if answer.literalBody then .error .literalFreed else .ok ()

theorem implements_responseDestroy (h : OwnsClosed p answer stream own) :
    Implements own (responseDestroy p) (freeBody answer) fun _ _ own' => own' = 0 := by
  obtain ⟨headers, body, table, bodyCells, htable, hbody, rfl⟩ := h
  unfold responseDestroy freeBody
  refine Implements.step (.load (Implements.mem_of_eq rfl) rfl) ?_
  rintro _ _ ⟨rfl, rfl⟩
  refine ((implements_headersDestroy htable).frame (add_left_comm _ _ _)).step ?_
  rintro _ _ ⟨_, rfl, rfl⟩
  rw [zero_add]
  generalize answer.body = text at hbody
  generalize answer.literalBody = literal at hbody ⊢
  -- `free` of the body: only a body of its own can be freed
  cases hbody with
  | null => exact .free rfl
  | literal text => exact .raise _
  | heap q text =>
    refine Implements.step (.free (add_comm _ _)) ?_
    rintro _ _ rfl
    exact .free (add_zero _).symm

end Output

/-! ## The client -/

/-- `handle_client` on values: what it writes, and the strings that it loses. -/
def clientLosing (middlewares : List Middleware) (surroundings : Surroundings)
    (input : List UInt8) : Except RequestFault (List (List UInt8) × List (List UInt8)) :=
  if input = [] then return ([], [])
  else do
    let request ← onText (Http.requestParse (receiveBuffer bufferSize input))
    let (answer, lost) ← onText (runLosing surroundings request middlewares Answer.create)
    let writes ← onText (Http.sendResponse answer.toResponse)
    let _ ← freeBody answer
    return (writes, lost)

/-- **`handle_client`** frees its argument and everything that it makes, but for these strings. -/
theorem implements_handleClient (middlewares : List Middleware) (surroundings : Surroundings)
    (input : List UInt8) (arg client : ℕ) :
    Implements {(arg, .handlerArg client)} (handleClient middlewares surroundings input arg)
      (clientLosing middlewares surroundings input)
      fun writes result own => writes = result.1 ∧ Lost own result.2 := by
  unfold handleClient clientLosing
  refine Implements.step (.load (Multiset.mem_singleton_self _) rfl) ?_
  rintro _ _ ⟨rfl, rfl⟩
  refine (Implements.free (add_zero _).symm).step ?_
  rintro _ _ rfl
  refine (implements_strdup _ _).step ?_
  rintro buffer _ rfl
  split
  · refine (Implements.free rfl).step ?_
    rintro _ _ rfl
    exact .ret ⟨rfl, .none⟩
  refine (Implements.store rfl _).step ?_
  rintro _ _ rfl
  rw [add_zero]
  refine (implements_requestParse _).bind ?_
  rintro p request _ ⟨requestCells, mem, hrequest, rfl⟩
  refine (implements_responseCreate _).step ?_
  rintro response _ ⟨hstream, responseCells, hresponse, rfl⟩
  -- the chain leaves the request as it is, and the buffer is not its concern
  have hown : responseCells + ({(buffer, Object.text mem)} + requestCells) =
      responseCells + requestCells + {(buffer, .text mem)} := by
    abel
  refine ((implements_runMiddlewares surroundings middlewares hrequest hresponse hstream).frame
    hown).bind ?_
  rintro _ ⟨answer, lost⟩ _ ⟨_, ⟨cells, lostCells, hcells, hlost, rfl⟩, rfl⟩
  rw [add_assoc]
  refine ((implements_sendResponse hcells).frame rfl).bind ?_
  rintro writes _ _ ⟨closedCells, ⟨rfl, stream, hclosed⟩, rfl⟩
  refine ((implements_responseDestroy hclosed).frame rfl).bind ?_
  rintro _ _ _ ⟨_, rfl, rfl⟩
  rw [zero_add, add_assoc]
  refine ((implements_requestDestroy hrequest).frame rfl).step ?_
  rintro _ _ ⟨_, rfl, rfl⟩
  rw [zero_add]
  refine (Implements.free (add_comm _ _)).step ?_
  rintro _ _ rfl
  exact .ret ⟨rfl, hlost⟩

/-! ## A worker -/

/-- A client of a worker: its descriptor, what the handlers learn from outside while it is served,
and the bytes that `read` returns, or none if it fails. -/
structure Client where
  descriptor : ℕ
  surroundings : Surroundings
  input : List UInt8

/-- A worker serves clients one after the other. The argument of `handle_client` is what
`server_start` has allocated. -/
def serveAll (middlewares : List Middleware) : List Client → Action (List (List (List UInt8)))
  | [] => return []
  | client :: clients => do
    let arg ← Program.alloc (.handlerArg client.descriptor)
    let writes ← handleClient middlewares client.surroundings client.input arg
    return writes :: (← serveAll middlewares clients)

/-- The same on values, with the strings that are lost. -/
def serveAllLosing (middlewares : List Middleware) :
    List Client → Except RequestFault (List (List (List UInt8)) × List (List UInt8))
  | [] => return ([], [])
  | client :: clients => do
    let (writes, lost) ← clientLosing middlewares client.surroundings client.input
    let (allWrites, later) ← serveAllLosing middlewares clients
    return (writes :: allWrites, lost ++ later)

theorem implements_serveAll (middlewares : List Middleware) (clients : List Client) :
    Implements 0 (serveAll middlewares clients) (serveAllLosing middlewares clients)
      fun writes result own => writes = result.1 ∧ Lost own result.2 := by
  induction clients with
  | nil => exact .ret ⟨rfl, .none⟩
  | cons client clients ih =>
    refine (Implements.alloc _ _).step ?_
    rintro arg _ rfl
    refine ((implements_handleClient middlewares client.surroundings client.input arg
      client.descriptor).frame rfl).bind ?_
    rintro _ ⟨writes, lost⟩ _ ⟨lostCells, ⟨rfl, hlost⟩, rfl⟩
    -- what is lost stays where it is
    rw [add_comm]
    refine (ih.frame rfl).bind ?_
    rintro _ ⟨allWrites, later⟩ _ ⟨laterCells, ⟨rfl, hlater⟩, rfl⟩
    refine .ret ⟨rfl, ?_⟩
    rw [add_comm]
    exact hlost.add hlater

/-- What `handle_client` writes for a client, on values. -/
def Client.Gets (middlewares : List Middleware) (client : Client) (writes : List (List UInt8)) :
    Prop :=
  if client.input = [] then writes = []
  else Http.handleClient middlewares client.surroundings client.input = .ok writes

/-- Apart from the lost strings it writes what `handle_client` writes. -/
theorem gets_of_clientLosing {middlewares : List Middleware} {client : Client}
    {writes : List (List UInt8)} {lost : List (List UInt8)}
    (h : clientLosing middlewares client.surroundings client.input = .ok (writes, lost)) :
    client.Gets middlewares writes := by
  unfold Client.Gets
  unfold clientLosing at h
  split at h
  · obtain ⟨rfl, rfl⟩ := Prod.mk.inj (Except.ok.inj h)
    rw [if_pos ‹_›]
  · obtain ⟨request, hparse, h⟩ := bind_eq_ok.mp h
    obtain ⟨⟨answer, lost'⟩, hrun, h⟩ := bind_eq_ok.mp h
    obtain ⟨writes', hsend, h⟩ := bind_eq_ok.mp h
    obtain ⟨-, -, h⟩ := bind_eq_ok.mp h
    obtain ⟨rfl, rfl⟩ := Prod.mk.inj (Except.ok.inj h)
    have hchain : Http.runMiddlewares client.surroundings request middlewares Answer.create =
        .ok answer := by
      rw [← runLosing_fst, onText_eq_ok.mp hrun]
      rfl
    rw [if_neg ‹_›, handleClient_of_parse (onText_eq_ok.mp hparse), hchain, ok_bind]
    exact onText_eq_ok.mp hsend

theorem gets_of_serveAllLosing {middlewares : List Middleware} {clients : List Client}
    {writes : List (List (List UInt8))} {lost : List (List UInt8)}
    (h : serveAllLosing middlewares clients = .ok (writes, lost)) :
    List.Forall₂ (Client.Gets middlewares) clients writes := by
  induction clients generalizing writes lost with
  | nil =>
    obtain ⟨rfl, rfl⟩ := Prod.mk.inj (Except.ok.inj h)
    exact .nil
  | cons client clients ih =>
    obtain ⟨⟨first, lostFirst⟩, hfirst, h⟩ := bind_eq_ok.mp h
    obtain ⟨⟨all, later⟩, hall, h⟩ := bind_eq_ok.mp h
    obtain ⟨rfl, rfl⟩ := Prod.mk.inj (Except.ok.inj h)
    exact .cons (gets_of_clientLosing hfirst) (ih hall)

/-- **What a worker leaks**: on every heap, for every chain of middlewares and all clients, a
worker either ends with a fault of the computation on values, or it has written for each client
what `handle_client` writes, all objects that were live are as they were, and exactly the strings
that the computation loses are live besides. No access to the heap goes wrong. -/
theorem serveAll_leaks (middlewares : List Middleware) (clients : List Client)
    (heap : Heap Object) :
    (∃ writes lost heap' cells, serveAll middlewares clients heap = .ok (writes, heap') ∧
      serveAllLosing middlewares clients = .ok (writes, lost) ∧
      List.Forall₂ (Client.Gets middlewares) clients writes ∧ Lost cells lost ∧
      liveObjects heap' = cells + liveObjects heap) ∨
    ∃ fault, serveAll middlewares clients heap = .error (.raised fault) ∧
      serveAllLosing middlewares clients = .error fault := by
  have hends := implements_serveAll middlewares clients heap (liveObjects heap) (zero_add _).symm
  generalize serveAll middlewares clients heap = result at hends ⊢
  generalize hlosing : serveAllLosing middlewares clients = computed at hends ⊢
  -- the worker starts with nothing of its own, so that the whole heap is its frame
  cases hends with
  | @ok _ result heap' cells hpost hlive =>
    obtain ⟨rfl, hlost⟩ := hpost
    exact .inl ⟨_, _, heap', cells, rfl, rfl, gets_of_serveAllLosing hlosing, hlost, hlive⟩
  | error fault => exact .inr ⟨fault, rfl, rfl⟩

/-! ## The server of main -/

/-- The chain of `main` loses nothing, and leaves no literal as the body. -/
theorem runLosing_main (surroundings : Surroundings) (request : Request) :
    ∃ answer, runLosing surroundings request mainMiddlewares Answer.create = .ok (answer, []) ∧
      answer.literalBody = false := by
  by_cases hpath : request.path = bytes "/"
  · refine ⟨(Http.middlewareHomepageHandler surroundings.now request Answer.create).2, ?_, ?_⟩
    · simp [mainMiddlewares, runLosing, lostBy, ownText, Middleware.handler,
        Http.middlewareLoggerHandler, Http.middlewareHomepageHandler, hpath, Answer.create,
        Http.responseCreate]
      rfl
    · rw [Http.middlewareHomepageHandler, if_pos hpath]
  · refine ⟨(Http.middleware404Handler request Answer.create).2, ?_, rfl⟩
    simp [mainMiddlewares, runLosing, lostBy, ownText, Middleware.handler,
      Http.middlewareLoggerHandler, Http.middlewareHomepageHandler, Http.middleware404Handler, hpath,
      Answer.create, Http.responseCreate]
    rfl

/-- A client that has sent nothing, or a request that `request_parse` accepts. -/
def Client.Accepted (client : Client) : Prop :=
  client.input = [] ∨
    ∃ request, Http.requestParse (receiveBuffer bufferSize client.input) = .ok request

theorem Client.Accepted.clientLosing_main {client : Client} (h : client.Accepted) :
    ∃ writes, clientLosing mainMiddlewares client.surroundings client.input =
      .ok (writes, []) := by
  by_cases hread : client.input = []
  · exact ⟨[], if_pos hread⟩
  obtain ⟨request, hparse⟩ := h.resolve_left hread
  obtain ⟨answer, hrun, hliteral⟩ := runLosing_main client.surroundings request
  have hclient := handleClient_main hparse client.surroundings
  rw [handleClient_of_parse hparse, ← runLosing_fst, hrun] at hclient
  have hsend : Http.sendResponse answer.toResponse =
      .ok [(mainText client.surroundings.now request).rendering] := hclient
  refine ⟨[(mainText client.surroundings.now request).rendering], ?_⟩
  rw [clientLosing, if_neg hread, hparse, onText_ok, ok_bind, hrun, onText_ok, ok_bind]
  dsimp only
  rw [hsend, onText_ok, ok_bind, freeBody, hliteral]
  rfl

/-- **The server of main leaks nothing**: a worker that serves any number of clients with requests
that are accepted writes what `handle_client` writes, and leaves the heap with the live objects
that it has found. -/
theorem serveAll_main {clients : List Client} (hclients : ∀ client ∈ clients, client.Accepted)
    (heap : Heap Object) :
    ∃ writes heap', serveAll mainMiddlewares clients heap = .ok (writes, heap') ∧
      List.Forall₂ (Client.Gets mainMiddlewares) clients writes ∧
      liveObjects heap' = liveObjects heap := by
  have hnothing : ∃ writes, serveAllLosing mainMiddlewares clients = .ok (writes, []) := by
    induction clients with
    | nil => exact ⟨[], rfl⟩
    | cons client clients ih =>
      obtain ⟨hfirst, hrest⟩ := List.forall_mem_cons.mp hclients
      obtain ⟨allWrites, hall⟩ := ih hrest
      obtain ⟨writes, hwrites⟩ := hfirst.clientLosing_main
      refine ⟨writes :: allWrites, ?_⟩
      rw [serveAllLosing, hwrites, ok_bind]
      dsimp only
      rw [hall]
      rfl
  obtain ⟨writes, hwrites⟩ := hnothing
  -- nothing is lost on values, so no string is live besides
  rcases serveAll_leaks mainMiddlewares clients heap with
    ⟨_, lost, heap', cells, hserve, hlosing, hgets, hlost, hlive⟩ | ⟨fault, -, hfault⟩
  · obtain ⟨rfl, rfl⟩ := Prod.mk.inj (Except.ok.inj (hlosing.symm.trans hwrites))
    obtain rfl : cells = 0 := Multiset.map_eq_zero.mp hlost
    exact ⟨_, heap', hserve, hgets, hlive.trans (zero_add _)⟩
  · rw [hwrites] at hfault
    cases hfault

/-- Two clients, the first of which has sent a request. -/
def twoClients : List Client :=
  [⟨5, { now := epoch, fopen := fun _ => none }, oneHeader.text⟩,
    ⟨6, { now := epoch, fopen := fun _ => none }, []⟩]

theorem serveAll_main_two :
    ∃ writes heap', serveAll mainMiddlewares twoClients [] = .ok (writes, heap') ∧
      List.Forall₂ (Client.Gets mainMiddlewares) twoClients writes ∧
      liveObjects heap' = liveObjects [] := by
  apply serveAll_main
  intro client hclient
  rcases List.mem_pair.mp hclient with rfl | rfl
  · exact .inr ⟨_, oneHeader.requestParse_text (by decide) (by decide)⟩
  · exact .inl rfl

end NetworkServers.Http.RequestMemory
