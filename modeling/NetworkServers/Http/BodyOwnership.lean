import NetworkServers.Http.TextBuffers
import NetworkServers.Library.HeapMemory

/-!
# Who Owns the Body of a Response

`response_destroy` frees the body, so the middlewares have to leave it a string of the heap
there, or nothing. Here the handlers are translated once more, with the body as a pointer
and with the heap that they allocate from. They do the same as the handlers on texts, and
all keep the contract but the static handler. It points the body at a literal where it does
not open a file, so one of the handlers behind it has to replace the body; and it hands the
pointer that `strrchr` returns to `strcmp` unchecked.
-/

namespace NetworkServers.Http.BodyOwnership

open NetworkServers.CString (bytes)
open NetworkServers.HeapMemory NetworkServers.Machine

/-! ## Responses with pointers -/

/-- What `response->body` points at: nothing, a literal of the program, or a string on the
heap. -/
inductive BodyPointer where
  | null
  | literal (text : List UInt8)
  | heap (p : ℕ)
deriving DecidableEq, Repr

/-- The ways the handling of a request can go wrong. -/
inductive Fault where
  /-- In a text. -/
  | text (fault : CString.Fault)
  /-- In an access to the heap. -/
  | memory (fault : HeapMemory.Fault)
  /-- A literal is handed to `free`. -/
  | literalFreed
deriving DecidableEq, Repr

/-- `struct Response`, and the strings that have been allocated while its request has been
handled. The header table owns its own strings, and is given by its fields. -/
structure TrackedResponse where
  status : ℤ
  headers : Headers
  body : BodyPointer
  bodyStream : Option (List (List UInt8))
  strings : Heap (List UInt8)
deriving DecidableEq

def ofText {α : Type} (x : Except CString.Fault α) : Except Fault α := x.mapError .text

def ofMemory {α : Type} (x : Except HeapMemory.Fault α) : Except Fault α := x.mapError .memory

@[simp] theorem ofMemory_ok {α : Type} (a : α) : ofMemory (.ok a) = .ok a := rfl

/-- `response_create`. -/
def responseCreate : TrackedResponse :=
  { status := 200, headers := headersCreate, body := .null, bodyStream := none, strings := [] }

/-- `headers_set(response->headers, name, value)`. -/
def TrackedResponse.setHeader (response : TrackedResponse) (name value : List UInt8) :
    TrackedResponse :=
  { response with headers := headersSet response.headers (some name) (some value) }

/-- `response_destroy`: the strings that are left. -/
def responseDestroy (response : TrackedResponse) : Except Fault (Heap (List UInt8)) :=
  match response.body with
  | .null => return response.strings
  | .literal _ => .error .literalFreed
  | .heap p => ofMemory (free response.strings p)

/-! ## The handlers -/

/-- `middleware_logger_handler`. -/
def middlewareLoggerHandler (_request : Request) (response : TrackedResponse) :
    Bool × TrackedResponse :=
  (true, response)

/-- `middleware_homepage_handler`. -/
def middlewareHomepageHandler (now : Tm) (request : Request) (response : TrackedResponse) :
    Except Fault (Bool × TrackedResponse) :=
  if request.path = bytes "/" then do
    let response := response.setHeader (bytes "Content-Type") (bytes "text/html; charset=utf-8")
    let (strings, body) := alloc response.strings homepage
    let (strings, body) ← ofMemory (realloc strings body)
    -- `strcat`
    let text ← ofMemory (read strings body)
    let strings ← ofMemory (write strings body (text ++ asctime now))
    return (false, { response with status := 200, body := .heap body, strings := strings })
  else return (true, response)

/-- `middleware_404_handler`. -/
def middleware404Handler (_request : Request) (response : TrackedResponse) :
    Bool × TrackedResponse :=
  let response := response.setHeader (bytes "Content-Type") (bytes "text/plain")
  let (strings, body) := alloc response.strings (bytes "404 Not Found!!\n")
  (false, { response with status := 404, body := .heap body, strings := strings })

/-- `middleware_static_handler`. -/
def middlewareStaticHandler (fopen : List UInt8 → Option (List (List UInt8))) (request : Request)
    (response : TrackedResponse) : Except Fault (Bool × TrackedResponse) :=
  let path := staticPath request
  let fullPath := bytes "public" ++ path
  -- this string is never freed
  let (strings, _) := alloc response.strings fullPath
  let response := { response with strings := strings }
  if bytes ".." <:+: fullPath then
    return (true, { response with status := 403, body := .literal (bytes "403 Forbidden") })
  else
    match fopen fullPath with
    | none =>
      return (true, { response with status := 404, body := .literal (bytes "404 Not Found") })
    | some file =>
      match strrchr path 46 with
      | none => .error (.text .nullPointer)
      | some ext =>
        let response := response.setHeader (bytes "Content-Type") (contentTypeOf ext)
        return (true, { response with bodyStream := some file })

/-- `middleware_test_handler`. -/
def middlewareTestHandler (request : Request) (response : TrackedResponse) :
    Except Fault (Bool × TrackedResponse) := do
  let response := response.setHeader (bytes "Content-Type") (bytes "text/plain")
  let (strings, body) := alloc response.strings []
  let text ← ofText (headersToString request.headers)
  let (strings, headers) := alloc strings text
  let written := requestText request text
  if written.length < textBufferSize then do
    let strings ← ofMemory (write strings body written)
    let strings ← ofMemory (free strings headers)
    let (strings, body) ← ofMemory (realloc strings body)
    return (true, { response with status := 200, body := .heap body, strings := strings })
  else .error (.text .outOfBounds)

/-- `middleware.handler`. -/
def handler (surroundings : Surroundings) (request : Request) (response : TrackedResponse) :
    Middleware → Except Fault (Bool × TrackedResponse)
  | .logger => return middlewareLoggerHandler request response
  | .homepage => middlewareHomepageHandler surroundings.now request response
  | .notFound => return middleware404Handler request response
  | .serveStatic => middlewareStaticHandler surroundings.fopen request response
  | .test => middlewareTestHandler request response

/-- The loop of `handle_client`. -/
def runMiddlewares (surroundings : Surroundings) (request : Request) :
    List Middleware → TrackedResponse → Except Fault TrackedResponse
  | [], response => return response
  | middleware :: middlewares, response => do
    let (turnOver, response) ← handler surroundings request response middleware
    if ¬turnOver ∨ response.bodyStream.isSome then return response
    else runMiddlewares surroundings request middlewares response

/-! ## The handlers on texts -/

/-- What a pointer points at, as an answer has it. -/
inductive PointsTo (strings : Heap (List UInt8)) :
    BodyPointer → Option (List UInt8) → Bool → Prop where
  | null : PointsTo strings .null none false
  | literal (text : List UInt8) : PointsTo strings (.literal text) (some text) true
  | heap {p : ℕ} {text : List UInt8} (h : Holds strings p text) :
      PointsTo strings (.heap p) (some text) false

/-- A string more on the heap changes nothing. -/
theorem PointsTo.alloc {strings : Heap (List UInt8)} {p : BodyPointer} {body : Option (List UInt8)}
    {literal : Bool} (h : PointsTo strings p body literal) (text : List UInt8) :
    PointsTo (alloc strings text).1 p body literal := by
  cases h with
  | null => exact .null
  | literal text => exact .literal text
  | heap h => exact .heap (h.alloc _)

structure Represents (tracked : TrackedResponse) (answer : Answer) : Prop where
  status : tracked.status = answer.status
  headers : tracked.headers = answer.headers
  bodyStream : tracked.bodyStream = answer.bodyStream
  body : PointsTo tracked.strings tracked.body answer.body answer.literalBody

/-- Two runs that end alike: with results in a relation, or with the same fault of a text. -/
inductive Agree {α β : Type} (R : α → β → Prop) :
    Except Fault α → Except CString.Fault β → Prop where
  | ok {a : α} {b : β} (h : R a b) : Agree R (.ok a) (.ok b)
  | error (fault : CString.Fault) : Agree R (.error (.text fault)) (.error fault)

theorem Agree.bind {α β γ δ : Type} {R : α → β → Prop} {S : γ → δ → Prop} {x : Except Fault α}
    {y : Except CString.Fault β} {f : α → Except Fault γ} {g : β → Except CString.Fault δ}
    (h : Agree R x y) (hnext : ∀ a b, R a b → Agree S (f a) (g b)) :
    Agree S (x >>= f) (y >>= g) := by
  cases h with
  | ok h => exact hnext _ _ h
  | error fault => exact .error fault

theorem agree_ofText {α : Type} (x : Except CString.Fault α) : Agree Eq (ofText x) x := by
  cases x with
  | ok a => exact .ok rfl
  | error fault => exact .error fault

/-- What two handlers hand on. -/
def HandedOn (x : Bool × TrackedResponse) (y : Bool × Answer) : Prop :=
  x.1 = y.1 ∧ Represents x.2 y.2

section Handlers

variable {surroundings : Surroundings} {request : Request} {tracked : TrackedResponse}
  {answer : Answer} {p : ℕ} {text name value : List UInt8}

theorem Represents.create : Represents responseCreate Answer.create :=
  ⟨rfl, rfl, rfl, .null⟩

/-- A body of its own that a handler sets, besides a header. -/
theorem Represents.setBody (h : Represents tracked answer) (status : ℤ)
    {strings : Heap (List UInt8)} (hbody : Holds strings p text) :
    Represents
      { tracked.setHeader name value with status := status, body := .heap p, strings := strings }
      { answer.setHeader name value with
        status := status, body := some text, literalBody := false } where
  status := rfl
  headers := congrArg (headersSet · (some name) (some value)) h.headers
  bodyStream := h.bodyStream
  body := .heap hbody

theorem agree_homepage (now : Tm) (h : Represents tracked answer) :
    Agree HandedOn (middlewareHomepageHandler now request tracked)
      (.ok (Http.middlewareHomepageHandler now request answer)) := by
  unfold middlewareHomepageHandler Http.middlewareHomepageHandler
  split
  · -- the page is copied, moved and gets the time
    have hcopy := holds_alloc (tracked.setHeader (bytes "Content-Type")
      (bytes "text/html; charset=utf-8")).strings homepage
    obtain ⟨moved, q, hrealloc, hmoved⟩ := hcopy.realloc
    have hwrite := hmoved.write (homepage ++ asctime now)
    have hbody := hmoved.set_self (homepage ++ asctime now)
    simp only [hrealloc, ofMemory_ok, ok_bind, hmoved.read, hwrite]
    exact .ok ⟨rfl, h.setBody 200 hbody⟩
  · exact .ok ⟨rfl, h⟩

theorem agree_notFound (h : Represents tracked answer) :
    HandedOn (middleware404Handler request tracked) (Http.middleware404Handler request answer) :=
  ⟨rfl, h.setBody 404 (holds_alloc _ _)⟩

theorem agree_serveStatic (fopen : List UInt8 → Option (List (List UInt8)))
    (h : Represents tracked answer) :
    Agree HandedOn (middlewareStaticHandler fopen request tracked)
      (Http.middlewareStaticHandler fopen request answer) := by
  unfold middlewareStaticHandler Http.middlewareStaticHandler
  dsimp only
  by_cases hdots : bytes ".." <:+: bytes "public" ++ staticPath request
  · rw [if_pos hdots, if_pos hdots]
    exact .ok ⟨rfl, rfl, h.headers, h.bodyStream, .literal _⟩
  · rw [if_neg hdots, if_neg hdots]
    cases fopen (bytes "public" ++ staticPath request) with
    | none => exact .ok ⟨rfl, rfl, h.headers, h.bodyStream, .literal _⟩
    | some file =>
      cases strrchr (staticPath request) 46 with
      | none => exact .error _
      | some ext =>
        -- the body stays what it has been
        have hheaders := congrArg (headersSet · (some (bytes "Content-Type"))
          (some (contentTypeOf ext))) h.headers
        exact .ok ⟨rfl, h.status, hheaders, rfl, h.body.alloc _⟩

theorem agree_test (h : Represents tracked answer) :
    Agree HandedOn (middlewareTestHandler request tracked)
      (Http.middlewareTestHandler request answer) := by
  unfold middlewareTestHandler Http.middlewareTestHandler
  refine (agree_ofText _).bind ?_
  rintro text _ rfl
  dsimp only
  split
  · -- the buffer is written, the headers are freed, and the buffer is moved
    have hbuffer := (holds_alloc tracked.strings []).alloc text
    have hheaders := holds_alloc (alloc tracked.strings []).1 text
    have hne : (alloc tracked.strings []).2 ≠ (alloc (alloc tracked.strings []).1 text).2 := by
      simp [alloc]
    have hwrite := hbuffer.write (requestText request text)
    have hfree := (hheaders.set_ne hne { value := requestText request text, live := true }).free
    have hbody := (hbuffer.set_self (requestText request text)).set_ne hne.symm
      { value := text, live := false }
    obtain ⟨moved, q, hrealloc, hmoved⟩ := hbody.realloc
    simp only [alloc] at hwrite hfree hrealloc
    simp only [TrackedResponse.setHeader, alloc, hwrite, hfree, hrealloc, ofMemory_ok, ok_bind]
    exact .ok ⟨rfl, h.setBody 200 hmoved⟩
  · exact .error _

/-- Every handler does with pointers what it does on texts. -/
theorem handler_agree (surroundings : Surroundings) (request : Request) (m : Middleware)
    (h : Represents tracked answer) :
    Agree HandedOn (handler surroundings request tracked m)
      (m.handler surroundings request answer) := by
  cases m with
  | logger => exact .ok ⟨rfl, h⟩
  | homepage => exact agree_homepage surroundings.now h
  | notFound => exact .ok (agree_notFound h)
  | serveStatic => exact agree_serveStatic surroundings.fopen h
  | test => exact agree_test h

/-- **The chain does with pointers what it does on texts**, and no access to the heap goes
wrong on the way. -/
theorem runMiddlewares_agree (surroundings : Surroundings) (request : Request)
    (middlewares : List Middleware) (h : Represents tracked answer) :
    Agree Represents (runMiddlewares surroundings request middlewares tracked)
      (Http.runMiddlewares surroundings request middlewares answer) := by
  induction middlewares generalizing tracked answer with
  | nil => exact .ok h
  | cons m middlewares ih =>
    refine (handler_agree surroundings request m h).bind ?_
    rintro ⟨turnOver, tracked'⟩ ⟨_, answer'⟩ ⟨rfl, h'⟩
    dsimp only
    rw [h'.bodyStream]
    split
    · exact .ok h'
    · exact ih h'

end Handlers

/-! ## The contract -/

/-- What `response_destroy` may get: no body, or a live string that has been allocated for the
request. -/
def Owned (response : TrackedResponse) : Prop :=
  response.body = .null ∨ ∃ p text, response.body = .heap p ∧ Holds response.strings p text

/-- A response between two handlers. -/
structure Handed (response : TrackedResponse) : Prop where
  bodyStream : response.bodyStream = none
  owned : Owned response

/-- What a run may end in. It has handed no `NULL` to `strcmp` and not touched a freed string:
the only thing that goes wrong is a text that does not fit into its buffer. And
`response_destroy` frees the body that it leaves, which cannot be freed a second time. -/
structure Contract (x : Except Fault TrackedResponse) : Prop where
  total : ∀ fault, x = .error fault → fault = .text .outOfBounds
  freed : ∀ response, x = .ok response → Owned response ∧
    ∃ strings, responseDestroy response = .ok strings ∧
      ∀ p, response.body = .heap p → free strings p = .error .freedTwice

/-- The same on texts. -/
structure EndsOwned (x : Except CString.Fault Answer) : Prop where
  total : ∀ fault, x = .error fault → fault = .outOfBounds
  owned : ∀ answer, x = .ok answer → answer.literalBody = false

section Contract

variable {surroundings : Surroundings} {request : Request} {rest : List Middleware}
  {tracked : TrackedResponse} {answer : Answer} {m : Middleware}

theorem Owned.destroy (h : Owned tracked) :
    ∃ strings, responseDestroy tracked = .ok strings ∧
      ∀ p, tracked.body = .heap p → free strings p = .error .freedTwice := by
  rcases h with hnull | ⟨p, text, hbody, hholds⟩
  · refine ⟨tracked.strings, ?_, fun p hp => ?_⟩
    · simp only [responseDestroy, hnull]
      rfl
    · rw [hnull] at hp
      cases hp
  · have hfree := hholds.free
    refine ⟨tracked.strings.set p { value := text, live := false }, ?_, fun q hq => ?_⟩
    · simp only [responseDestroy, hbody, hfree]
      rfl
    · obtain rfl := BodyPointer.heap.inj (hbody.symm.trans hq)
      exact free_freedTwice hfree

theorem Represents.owned_iff (h : Represents tracked answer) :
    Owned tracked ↔ answer.literalBody = false := by
  obtain ⟨-, -, -, hbody⟩ := h
  unfold Owned
  generalize tracked.body = p at hbody
  generalize answer.body = body at hbody
  generalize answer.literalBody = literal at hbody
  cases hbody with
  | null => exact iff_of_true (.inl rfl) rfl
  | literal text => simp
  | heap hholds => exact iff_of_true (.inr ⟨_, _, rfl, hholds⟩) rfl

/-- The contract can be read off the run on texts. -/
theorem Agree.contract_iff {x : Except Fault TrackedResponse} {y : Except CString.Fault Answer}
    (h : Agree Represents x y) : Contract x ↔ EndsOwned y := by
  cases h with
  -- the strings stand for the texts, so the body is owned in both or in neither
  | ok h =>
    constructor
    · intro hcontract
      refine ⟨nofun, ?_⟩
      rintro _ ⟨⟩
      exact h.owned_iff.mp (hcontract.freed _ rfl).1
    · intro hends
      refine ⟨nofun, ?_⟩
      rintro _ ⟨⟩
      have howned := h.owned_iff.mpr (hends.owned _ rfl)
      exact ⟨howned, howned.destroy⟩
  -- nothing is left to free
  | error fault =>
    constructor
    · intro hcontract
      refine ⟨?_, nofun⟩
      rintro _ ⟨⟩
      exact Fault.text.inj (hcontract.total _ rfl)
    · intro hends
      refine ⟨?_, nofun⟩
      rintro _ ⟨⟩
      exact congrArg Fault.text (hends.total fault rfl)

/-- Between two handlers, the response has a counterpart on texts. -/
theorem Handed.represents (h : Handed tracked) :
    ∃ answer, Represents tracked answer ∧ answer.literalBody = false ∧
      answer.bodyStream = none := by
  obtain ⟨body, hbody⟩ : ∃ body, PointsTo tracked.strings tracked.body body false := by
    rcases h.owned with hnull | ⟨p, text, hp, hholds⟩
    · rw [hnull]
      exact ⟨_, .null⟩
    · rw [hp]
      exact ⟨_, .heap hholds⟩
  exact ⟨{ status := tracked.status, headers := tracked.headers, body := body
           bodyStream := tracked.bodyStream, literalBody := false },
    ⟨rfl, rfl, rfl, hbody⟩, rfl, h.bodyStream⟩

theorem Handed.create : Handed responseCreate := ⟨rfl, .inl rfl⟩

/-! ## The other handlers -/

/-- A handler that sets a body of its own. -/
def Replaces (request : Request) (m : Middleware) : Prop :=
  m = .notFound ∨ m = .test ∨ m = .homepage ∧ request.path = bytes "/"

/-- Any other handler than the static one hands the response on as it is, or sets a string of
its own as the body, unless the request is too long for it. -/
theorem handler_others (surroundings : Surroundings) (request : Request) (answer : Answer)
    (hm : m ≠ .serveStatic) :
    (¬Replaces request m ∧ m.handler surroundings request answer = .ok (true, answer)) ∨
    (Replaces request m ∧ (m.handler surroundings request answer = .error .outOfBounds ∨
      ∃ turnOver answer', m.handler surroundings request answer = .ok (turnOver, answer') ∧
        answer'.literalBody = false ∧ answer'.bodyStream = answer.bodyStream)) := by
  cases m with
  -- the logger only reads the request
  | logger => exact .inl ⟨by simp [Replaces], rfl⟩
  | homepage =>
    by_cases hroot : request.path = bytes "/"
    · refine .inr ⟨by simp [Replaces, hroot], .inr ⟨_, _, congrArg Except.ok (if_pos hroot), rfl, rfl⟩⟩
    · exact .inl ⟨by simp [Replaces, hroot], congrArg Except.ok (if_neg hroot)⟩
  -- the 404 page and the reflected request are strings of their own
  | notFound => exact .inr ⟨.inl rfl, .inr ⟨_, _, rfl, rfl, rfl⟩⟩
  | serveStatic => exact absurd rfl hm
  | test =>
    refine .inr ⟨.inr (.inl rfl), ?_⟩
    show Http.middlewareTestHandler request answer = _ ∨ ∃ turnOver answer',
      Http.middlewareTestHandler request answer = _ ∧ _
    unfold Http.middlewareTestHandler headersToString
    dsimp only
    split
    · rw [ok_bind]
      split
      · exact .inr ⟨_, _, rfl, rfl, rfl⟩
      · exact .inl rfl
    · exact .inl rfl

theorem endsOwned_ok (h : answer.literalBody = false) : EndsOwned (.ok answer) := by
  refine ⟨nofun, ?_⟩
  rintro _ ⟨⟩
  exact h

theorem endsOwned_outOfBounds : EndsOwned (.error .outOfBounds) :=
  ⟨fun _ heq => (Except.error.inj heq).symm, nofun⟩

/-- The chain behind the static handler replaces the body if one of its handlers does, and
otherwise leaves the response as it is. -/
theorem run_others (surroundings : Surroundings) (request : Request)
    (hrest : .serveStatic ∉ rest) (hstream : answer.bodyStream = none) :
    ((¬∃ m ∈ rest, Replaces request m) ∧
      Http.runMiddlewares surroundings request rest answer = .ok answer) ∨
    ((∃ m ∈ rest, Replaces request m) ∧
      EndsOwned (Http.runMiddlewares surroundings request rest answer)) := by
  induction rest generalizing answer with
  | nil => exact .inl ⟨by simp, rfl⟩
  | cons m rest ih =>
    obtain ⟨hm, hrest⟩ := not_or.mp (mt List.mem_cons.mpr hrest)
    rw [Http.runMiddlewares, List.exists_mem_cons_iff]
    rcases handler_others surroundings request answer (Ne.symm hm) with
      ⟨hkeeps, hrun⟩ | ⟨hreplaces, hrun⟩
    · -- the rest decides
      rw [hrun, ok_bind, or_iff_right hkeeps]
      simp only [not_true_eq_false, hstream, Option.isSome_none, Bool.false_eq_true, or_self,
        if_false]
      exact ih hrest hstream
    · refine .inr ⟨.inl hreplaces, ?_⟩
      rcases hrun with hfault | ⟨turnOver, answer', hrun, hown, hstream'⟩
      · rw [hfault]
        exact endsOwned_outOfBounds
      · rw [hrun, ok_bind]
        dsimp only
        split
        · exact endsOwned_ok hown
        · -- what comes behind keeps the string, or sets another one
          rcases ih hrest (hstream'.trans hstream) with ⟨-, hrest⟩ | ⟨-, hends⟩
          · rw [hrest]
            exact endsOwned_ok hown
          · exact hends

/-- What the other handlers hand on has no stream and no literal as its body, if what they get
has none. -/
theorem Handed.step {tracked' : TrackedResponse} {turnOver : Bool} (h : Handed tracked)
    (hm : m ≠ .serveStatic)
    (hrun : handler surroundings request tracked m = .ok (turnOver, tracked')) :
    Handed tracked' := by
  obtain ⟨answer, hrepresents, hown, hstream⟩ := h.represents
  have hagree := handler_agree surroundings request m hrepresents
  rw [hrun] at hagree
  rcases handler_others surroundings request answer hm with
    ⟨-, hsame⟩ | ⟨-, hfault | ⟨_, answer', hsame, hown', hstream'⟩⟩
  · rw [hsame] at hagree
    cases hagree with
    | ok h' => exact ⟨h'.2.bodyStream.trans hstream, h'.2.owned_iff.mpr hown⟩
  · -- a fault hands nothing on
    rw [hfault] at hagree
    cases hagree
  · rw [hsame] at hagree
    cases hagree with
    | ok h' => exact ⟨h'.2.bodyStream.trans (hstream'.trans hstream), h'.2.owned_iff.mpr hown'⟩

/-- So the static handler gets such a response, whatever is in front of it in the chain. -/
theorem Handed.run {before : List Middleware} {tracked' : TrackedResponse} (h : Handed tracked)
    (hbefore : .serveStatic ∉ before)
    (hrun : runMiddlewares surroundings request before tracked = .ok tracked') :
    Handed tracked' := by
  induction before generalizing tracked with
  | nil =>
    cases hrun
    exact h
  | cons m before ih =>
    obtain ⟨hm, hbefore⟩ := not_or.mp (mt List.mem_cons.mpr hbefore)
    obtain ⟨⟨turnOver, next⟩, hhandler, hrun⟩ := bind_eq_ok.mp hrun
    have hnext := h.step (Ne.symm hm) hhandler
    dsimp only at hrun
    -- the chain ends here, or the next handler gets the response
    split at hrun
    · cases hrun
      exact hnext
    · exact ih hnext hbefore hrun

/-! ## The static handler -/

/-- **The ownership contract** of the static handler and the chain behind it: it is kept if
and only if a file that is opened has a dot in its path, and a handler behind the static one
sets a body of its own where nothing is opened. -/
theorem serveStatic_contract_iff (hstart : Handed tracked) (hrest : .serveStatic ∉ rest) :
    Contract (runMiddlewares surroundings request (.serveStatic :: rest) tracked) ↔
      (Refused surroundings.fopen request → ∃ m ∈ rest, Replaces request m) ∧
      (¬Refused surroundings.fopen request → 46 ∈ staticPath request) := by
  obtain ⟨answer, hrepresents, hown, hstream⟩ := hstart.represents
  rw [(runMiddlewares_agree _ _ (.serveStatic :: rest) hrepresents).contract_iff, Http.runMiddlewares]
  show EndsOwned (Http.middlewareStaticHandler surroundings.fopen request answer >>= _) ↔ _
  rcases middlewareStaticHandler_cases surroundings.fopen request answer with
    ⟨hrefused, refusal, -, hrun⟩ | ⟨hopened, hdot, hrun⟩ | ⟨hopened, hdot, ext, file, hrun⟩
  · -- nothing is opened: the body is a literal until somebody behind replaces it
    obtain ⟨answer', hliteral, hstream', hrun⟩ : ∃ answer', answer'.literalBody = true ∧
        answer'.bodyStream = none ∧
        Http.middlewareStaticHandler surroundings.fopen request answer = .ok (true, answer') :=
      ⟨_, rfl, hstream, hrun⟩
    rw [hrun, ok_bind]
    simp only [not_true_eq_false, hstream', Option.isSome_none, Bool.false_eq_true, or_self,
      if_false]
    rcases run_others surroundings request hrest hstream' with ⟨hkept, hrest⟩ | ⟨hreplaced, hends⟩
    · -- the literal is still there at the end
      rw [hrest]
      refine iff_of_false (fun hends => ?_) (fun h => hkept (h.1 hrefused))
      cases hliteral.symm.trans (hends.owned answer' rfl)
    · exact iff_of_true hends ⟨fun _ => hreplaced, fun hopened => absurd hrefused hopened⟩
  · -- `strcmp` gets `NULL` for a path without a dot
    rw [hrun, error_bind]
    refine iff_of_false (fun hends => ?_) (fun h => hdot (h.2 hopened))
    cases hends.total _ rfl
  · -- the file ends the chain
    rw [hrun, ok_bind]
    dsimp only
    rw [if_pos (.inr rfl)]
    exact iff_of_true (endsOwned_ok hown) ⟨fun hrefused => absurd hrefused hopened, fun _ => hdot⟩

end Contract

/-- A world with two files, the name of one of them without an extension. -/
def twoFiles : Surroundings where
  now := epoch
  fopen := fun path =>
    if path ∈ [bytes "public/README", bytes "public/a.html"] then some [bytes "Hi"] else none

/-- A request for a path. -/
def requestFor (path : List UInt8) : Request where
  method := bytes "GET"
  path := path
  headers := { fields := [{ name := bytes "host", value := bytes "a" }] }
  body := []

/-- The contract is kept where a file with an extension is opened, and where a file is missing
and the handler behind the static one sets a body of its own. -/
theorem serveStatic_contract_iff_opened :
    Contract (runMiddlewares twoFiles (requestFor (bytes "/a.html")) [.serveStatic]
      responseCreate) ∧
    Contract (runMiddlewares twoFiles (requestFor (bytes "/x")) [.serveStatic, .notFound]
      responseCreate) := by
  have hopened : ¬Refused twoFiles.fopen (requestFor (bytes "/a.html")) := by decide
  exact ⟨(serveStatic_contract_iff Handed.create (by decide)).mpr
      ⟨fun hrefused => absurd hrefused hopened, fun _ => by decide⟩,
    (serveStatic_contract_iff Handed.create (by decide)).mpr
      ⟨fun _ => ⟨.notFound, List.mem_cons_self, .inl rfl⟩,
        fun hopened => absurd (.inr rfl) hopened⟩⟩

/-- The contract is broken in both ways: `strcmp` gets `NULL` for the file without an
extension, and a literal is freed for a file that is missing. -/
theorem not_contract_readme :
    runMiddlewares twoFiles (requestFor (bytes "/README")) [.serveStatic, .notFound]
      responseCreate = .error (.text .nullPointer) ∧
    (runMiddlewares twoFiles (requestFor (bytes "/x")) [.serveStatic] responseCreate >>=
      responseDestroy) = .error .literalFreed ∧
    ¬Contract (runMiddlewares twoFiles (requestFor (bytes "/README")) [.serveStatic, .notFound]
      responseCreate) ∧
    ¬Contract (runMiddlewares twoFiles (requestFor (bytes "/x")) [.serveStatic]
      responseCreate) := by
  have hnull : runMiddlewares twoFiles (requestFor (bytes "/README")) [.serveStatic, .notFound]
      responseCreate = .error (.text .nullPointer) := by decide +kernel
  have hliteral : runMiddlewares twoFiles (requestFor (bytes "/x")) [.serveStatic] responseCreate =
      .ok { responseCreate with
            status := 404, body := .literal (bytes "404 Not Found")
            strings := [{ value := bytes "public/x", live := true }] } := by decide +kernel
  refine ⟨hnull, by rw [hliteral]; rfl, fun h => ?_, fun h => ?_⟩
  · cases h.total _ hnull
  · obtain ⟨-, strings, hdestroy, -⟩ := h.freed _ hliteral
    cases hdestroy

end NetworkServers.Http.BodyOwnership
