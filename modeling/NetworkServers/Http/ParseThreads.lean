import NetworkServers.Http.Middlewares
import NetworkServers.Http.RequestHead
import NetworkServers.Library.SharedTokens

/-!
# Requests Parsed by Several Workers

Every worker of the pool runs `request_parse` on a buffer of its own, but the position of
`strtok` belongs to the process. Here the workers are interleaved call by call.

A worker that no other worker interrupts reads its own request. Two that are in the function at
the same time need not: whatever the two requests are, one of them can get the path of the other.
-/

namespace NetworkServers.Http

open NetworkServers.CString NetworkServers.Machine NetworkServers.Runs NetworkServers.SharedTokens

variable {ι : Type}

/-! ## The parser as a program -/

/-- `strncmp(buffer + offset, "\r\n", 2) == 0`, in the buffer `b`. -/
def startsWithCrlfProgram (b : ι) (offset : ℕ) : Program ι Bool := do
  let c ← Program.byte (some (b, offset))
  if c = 13 then
    let d ← Program.byte (some (b, offset + 1))
    return d = 10
  else return false

/-- The string at a token, where there is one. -/
def nameProgram : Option (Pointer ι) → Program ι (Option (List UInt8))
  | none => return none
  | some p => do
    let text ← Program.text (some p)
    return some text

/-- `strdup(body ? body : "")`. -/
def bodyProgram : Option (Pointer ι) → Program ι (List UInt8)
  | none => return []
  | some p => Program.text (some p)

/-- The body of the header loop of `request_parse`. -/
def parseHeaderProgram (b : ι) (line : Pointer ι) (offset : ℕ) (headers : Headers) :
    Program ι (Bool × ℕ × Headers) := do
  let name ← Program.token (some line) (bytes ": ")
  let value ← Program.token none []
  -- value[0] == ' ' ? value + 1 : value
  let first ← Program.byte value
  let value ← Program.text (if first = 32 then value.map (fun p => (p.1, p.2 + 1)) else value)
  let name ← nameProgram name
  let headers := headersSet headers name (some value)
  let blank ← startsWithCrlfProgram b offset
  return (!blank, if blank then offset + 2 else offset, headers)

/-- The header loop of `request_parse`. -/
def parseHeadersProgram (b : ι) : ℕ → ℕ → Headers → Program ι (ℕ × Headers)
  | 0, _, _ => .fail .runsOn
  | fuel + 1, offset, headers => do
    let line ← Program.token (some (b, offset)) (bytes "\r\n")
    match line with
    | none => return (offset, headers)
    | some line => do
      let text ← Program.text (some line)
      if text.length = 0 then return (offset, headers)
      else do
        let (goOn, offset, headers) ←
          parseHeaderProgram b line (offset + text.length + 2) headers
        if goOn then parseHeadersProgram b fuel offset headers
        else return (offset, headers)

/-- What follows the start line in `request_parse`. -/
def parseRestProgram (b : ι) (fuel : ℕ) (method path : List UInt8) (offset : ℕ) :
    Program ι Request := do
  let (offset, headers) ← parseHeadersProgram b fuel offset headersCreate
  let body ← Program.token (some (b, offset)) []
  let body ← bodyProgram body
  return { method := method, path := path, headers := headers, body := body }

/-- `request_parse` from the path on. -/
def pathProgram (b : ι) (fuel offset : ℕ) (method : Option (Pointer ι)) : Program ι Request := do
  let path ← Program.token none (bytes " ")
  -- the HTTP version is skipped
  let _ ← Program.token none (bytes " ")
  let method ← Program.text method
  let path ← Program.text path
  parseRestProgram b fuel method path offset

/-- `request_parse` on the buffer `b`. -/
def requestParseProgram (b : ι) (fuel : ℕ) : Program ι Request := do
  let line ← Program.token (some (b, 0)) (bytes "\r\n")
  let text ← Program.text line
  let method ← Program.token line (bytes " ")
  pathProgram b fuel (text.length + 2) method

/-! ## The program by itself -/

section Alone

variable {b : ι}

theorem startsWithCrlfProgram_private (offset : ℕ) :
    (startsWithCrlfProgram b offset).Private b := by
  refine Program.Private.byte fun c => ?_
  split
  · exact Program.Private.byte fun d => trivial
  · trivial

theorem parseHeaderProgram_private {line : Pointer ι} (hline : line.1 = b) (offset : ℕ)
    (headers : Headers) : (parseHeaderProgram b line offset headers).Private b := by
  refine Program.Private.token (by simpa using hline) fun name hname => ?_
  refine Program.Private.token (by simp) fun value hvalue => ?_
  refine Program.Private.byte fun first => Program.Private.text fun text => ?_
  refine Program.Private.bind ?_ fun stored => ?_
  · cases name with
    | none => trivial
    | some p => exact fun text => trivial
  · exact (startsWithCrlfProgram_private offset).bind fun blank => trivial

theorem parseHeadersProgram_private (fuel offset : ℕ) (headers : Headers) :
    (parseHeadersProgram b fuel offset headers).Private b := by
  induction fuel generalizing offset headers with
  | zero => trivial
  | succ fuel ih =>
    refine Program.Private.token (by simp) fun line hline => ?_
    cases line with
    | none => trivial
    | some line =>
      refine Program.Private.text fun text => ?_
      split
      · trivial
      · refine (parseHeaderProgram_private (hline line rfl) _ headers).bind ?_
        rintro ⟨goOn, offset, headers⟩
        cases goOn with
        | true => exact ih offset headers
        | false => trivial

theorem parseRestProgram_private (fuel : ℕ) (method path : List UInt8) (offset : ℕ) :
    (parseRestProgram b fuel method path offset).Private b := by
  refine (parseHeadersProgram_private fuel offset headersCreate).bind fun result => ?_
  refine Program.Private.token (by simp) fun body hbody => ?_
  cases body with
  | none => trivial
  | some p => exact fun text => trivial

theorem requestParseProgram_private (fuel : ℕ) : (requestParseProgram b fuel).Private b := by
  refine Program.Private.token (by simp) fun line hline => Program.Private.text fun text => ?_
  refine Program.Private.token hline fun method _ => ?_
  refine Program.Private.token (by simp) fun path _ => ?_
  refine Program.Private.token (by simp) fun _ _ => ?_
  exact Program.Private.text fun method => Program.Private.text fun path =>
    parseRestProgram_private fuel method path _

variable [DecidableEq ι] {st : CState} {m : Shared ι}

theorem startsWithCrlfProgram_run (h : View b st m) (offset : ℕ) :
    Matches (fun blank r => r = (blank, m)) (startsWithCrlf st.mem offset)
      ((startsWithCrlfProgram b offset).run m) := by
  refine h.byte_bind rfl fun c => ?_
  split
  · exact h.byte_bind rfl fun d => .ok rfl
  · exact .ok rfl

/-- The test for the empty line, in front of what follows it. -/
theorem startsWithCrlfProgram_bind {γ δ : Type} {S : γ → δ × Shared ι → Prop} (h : View b st m)
    (offset : ℕ) {f : Bool → Except Fault γ} {g : Bool → Program ι δ}
    (hnext : ∀ blank, Matches S (f blank) ((g blank).run m)) :
    Matches S (startsWithCrlf st.mem offset >>= f)
      ((startsWithCrlfProgram b offset >>= g).run m) := by
  rw [Program.run_bind]
  refine (startsWithCrlfProgram_run h offset).bind ?_
  rintro blank _ rfl
  exact hnext blank

/-- The results of the two header loops. -/
def SameHeader (b : ι) (r : Bool × ℕ × Headers × CState) (r' : (Bool × ℕ × Headers) × Shared ι) :
    Prop :=
  r'.1 = (r.1, r.2.1, r.2.2.1) ∧ View b r.2.2.2 r'.2

theorem parseHeaderProgram_run (h : View b st m) (line offset : ℕ) (headers : Headers) :
    Matches (SameHeader b) (parseHeader line offset headers st)
      ((parseHeaderProgram b (b, line) offset headers).run m) := by
  refine h.token_bind rfl fun name st m h => ?_
  refine h.token_bind rfl fun value st m h => ?_
  refine h.byte_bind rfl fun first => ?_
  refine h.text_bind ?_ fun text => ?_
  · split
    · cases value <;> rfl
    · rfl
  · cases name with
    | none => exact startsWithCrlfProgram_bind h offset fun blank => .ok ⟨rfl, h⟩
    | some p =>
      dsimp only
      rw [bind_map_left]
      exact h.text_bind rfl fun name => startsWithCrlfProgram_bind h offset fun blank => .ok ⟨rfl, h⟩

theorem parseHeadersProgram_run (h : View b st m) (fuel offset : ℕ) (headers : Headers) :
    Matches (fun r r' => r'.1 = (r.1, r.2.1) ∧ View b r.2.2 r'.2)
      (parseHeaders fuel offset headers st) ((parseHeadersProgram b fuel offset headers).run m) := by
  induction fuel generalizing offset headers st m with
  | zero => exact .inl ⟨.runsOn, rfl, rfl⟩
  | succ fuel ih =>
    refine h.token_bind rfl fun line st m h => ?_
    cases line with
    | none => exact .ok ⟨rfl, h⟩
    | some line =>
      refine h.text_bind rfl fun text => ?_
      dsimp only
      split
      · exact .ok ⟨rfl, h⟩
      · rw [Program.run_bind]
        refine (parseHeaderProgram_run h line _ headers).bind ?_
        rintro ⟨goOn, offset, headers, st⟩ ⟨_, m⟩ ⟨rfl, h⟩
        cases goOn with
        | true => exact ih h offset headers
        | false => exact .ok ⟨rfl, h⟩

/-- What `request_parse` does behind the start line. -/
def parseRest (fuel : ℕ) (method path : List UInt8) (offset : ℕ) (st : CState) :
    Except Fault Request := do
  let (offset, headers, st) ← parseHeaders fuel offset headersCreate st
  let (body, st) ← strtok (some offset) [] st
  let body ← match body with
    | none => pure []
    | some p => readString st.mem (some p)
  return { method := method, path := path, headers := headers, body := body }

theorem parseRestProgram_run (h : View b st m) (fuel : ℕ) (method path : List UInt8) (offset : ℕ) :
    Matches (fun r r' => r'.1 = r) (parseRest fuel method path offset st)
      ((parseRestProgram b fuel method path offset).run m) := by
  unfold parseRestProgram parseRest
  rw [Program.run_bind]
  refine (parseHeadersProgram_run h fuel offset headersCreate).bind ?_
  rintro ⟨offset, headers, st⟩ ⟨_, m⟩ ⟨rfl, h⟩
  refine h.token_bind rfl fun body st m h => ?_
  cases body with
  | none => exact .ok rfl
  | some p => exact h.text_bind rfl fun text => .ok rfl

/-- **The program by itself**: a thread that no other one interrupts does what `request_parse`
does with its own buffer, whatever position it finds. -/
theorem requestParseProgram_run (m : Shared ι) (b : ι) :
    Matches (fun r r' => r'.1 = r) (requestParse (m.buffers b))
      ((requestParseProgram b (m.buffers b).length).run m) := by
  have hparse : requestParse (m.buffers b) =
      (strtok (some 0) (bytes "\r\n") { mem := m.buffers b, saved := none } >>= fun r => do
        let text ← readString r.2.mem r.1
        let (method, st) ← strtok r.1 (bytes " ") r.2
        let (path, st) ← strtok none (bytes " ") st
        let (_, st) ← strtok none (bytes " ") st
        let method ← readString st.mem method
        let path ← readString st.mem path
        parseRest (m.buffers b).length method path (text.length + 2) st) := by
    simp only [requestParse, parseStartLine, bind_assoc]
    rfl
  rw [hparse]
  unfold requestParseProgram pathProgram
  rw [Program.run_bind, Program.run_token]
  refine (strtok_start 0 (bytes "\r\n") m).bind ?_
  rintro ⟨line, st⟩ ⟨_, m'⟩ ⟨rfl, h⟩
  refine h.text_bind rfl fun text => ?_
  refine h.token_bind rfl fun method st m h => ?_
  refine h.token_bind rfl fun path st m h => ?_
  refine h.token_bind rfl fun _ st m h => ?_
  refine h.text_bind rfl fun method => h.text_bind rfl fun path => ?_
  exact parseRestProgram_run h _ method path _

end Alone

/-! ## Several workers -/

/-- Where a worker stands. -/
inductive Parser (ι : Type) where
  | before
  | inside (rest : Program ι Request)
  | returned (request : Request)

/-- The workers, with the buffers that they have read into. -/
structure Parsers (ι : Type) where
  shared : Shared ι
  threads : ι → Parser ι

/-- Every worker has read its input and is about to call `request_parse`. -/
def parsersStart (inputs : ι → List UInt8) : Parsers ι where
  shared := { buffers := fun i => receiveBuffer bufferSize (inputs i), saved := none }
  threads := fun _ => .before

variable [DecidableEq ι]

/-- The next call of a worker that has this program before it. -/
def parserMove (s : Parsers ι) (i : ι) : Program ι Request → Option (Except Fault (Parsers ι))
  | .done request => some (.ok { s with threads := Function.update s.threads i (.returned request) })
  | program => (program.step s.shared).map fun out => out.map fun (rest, m) =>
      { shared := m, threads := Function.update s.threads i (.inside rest) }

/-- The next call of worker `i`, if it has not returned. -/
def parserStep (s : Parsers ι) (i : ι) : Option (Except Fault (Parsers ι)) :=
  match s.threads i with
  | .before => parserMove s i (requestParseProgram i (s.shared.buffers i).length)
  | .inside rest => parserMove s i rest
  | .returned _ => none

/-- The steps that do not fault. A fault ends the process. -/
def ParserStep (s : Parsers ι) (i : ι) (t : Parsers ι) : Prop := parserStep s i = some (.ok t)

/-- No other worker is inside of `request_parse`. -/
def Alone (s : Parsers ι) (i : ι) : Prop := ∀ j ≠ i, ∀ rest, s.threads j ≠ .inside rest

/-! ## One worker at a time -/

section Apart

variable {inputs : ι → List UInt8} {s t : Parsers ι} {i : ι}

/-- What `request_parse` makes of the input of worker `i` by itself. -/
def ownRequest (inputs : ι → List UInt8) (i : ι) : Except Fault Request :=
  requestParse (receiveBuffer bufferSize (inputs i))

/-- A program of worker `i` that stays in its buffer and leads to its own request. -/
structure LeadsToOwn (inputs : ι → List UInt8) (i : ι) (program : Program ι Request)
    (m : Shared ι) : Prop where
  stays : program.Private i
  leads : (program.run m).map Prod.fst = ownRequest inputs i

/-- Worker `i` has not started, is on the way to its own request, or has returned it. -/
def Reads (inputs : ι → List UInt8) (s : Parsers ι) (i : ι) : Prop :=
  match s.threads i with
  | .before => s.shared.buffers i = receiveBuffer bufferSize (inputs i)
  | .inside rest => LeadsToOwn inputs i rest s.shared ∧ ∀ p ∈ s.shared.saved, p.1 = i
  | .returned request => ownRequest inputs i = .ok request

/-- What a move of a worker does. -/
theorem parserMove_cases {program : Program ι Request} (h : parserMove s i program = some (.ok t)) :
    (∃ request, program = .done request ∧
      t = { s with threads := Function.update s.threads i (.returned request) }) ∨
    ∃ rest m, program.step s.shared = some (.ok (rest, m)) ∧
      t = { shared := m, threads := Function.update s.threads i (.inside rest) } := by
  unfold parserMove at h
  split at h
  · rename_i request
    exact .inl ⟨request, rfl, (Except.ok.inj (Option.some.inj h)).symm⟩
  · obtain ⟨out, hout, hok⟩ := Option.map_eq_some_iff.mp h
    cases out with
    | error fault => cases hok
    | ok r => exact .inr ⟨r.1, r.2, hout, (Except.ok.inj hok).symm⟩

/-- A worker that starts finds its own position, whatever position it finds. -/
theorem requestParseProgram_step (b : ι) (fuel : ℕ) (m : Shared ι) :
    (requestParseProgram b fuel).step m =
      (requestParseProgram b fuel).step { m with saved := none } := rfl

/-- A step on the way to the own request, at a position in the own buffer. -/
theorem LeadsToOwn.step {program rest : Program ι Request} {m m' : Shared ι}
    (h : LeadsToOwn inputs i program m) (hsaved : ∀ p ∈ m.saved, p.1 = i)
    (hstep : program.step m = some (.ok (rest, m'))) :
    LeadsToOwn inputs i rest m' ∧ (∀ p ∈ m'.saved, p.1 = i) ∧
      ∀ j ≠ i, m'.buffers j = m.buffers j := by
  obtain ⟨hprivate, hown, hothers⟩ := h.stays.step hsaved hstep
  exact ⟨⟨hprivate, (Program.run_step hstep).symm ▸ h.leads⟩, hown, hothers⟩

theorem leadsToOwn_start (hbuffer : s.shared.buffers i = receiveBuffer bufferSize (inputs i))
    (m : Shared ι) (hm : m.buffers = s.shared.buffers) :
    LeadsToOwn inputs i (requestParseProgram i (s.shared.buffers i).length) m where
  stays := requestParseProgram_private _
  leads := by
    rw [← hm, (requestParseProgram_run m i).map_fst, hm, hbuffer]
    rfl

/-- The other workers stand where they stood, if their buffers are as they were. -/
theorem reads_others {m : Shared ι} {parser : Parser ι} (h : ∀ j, Reads inputs s j)
    (halone : Alone s i) (hbuffers : ∀ j ≠ i, m.buffers j = s.shared.buffers j)
    (hown : Reads inputs { shared := m, threads := Function.update s.threads i parser } i) (j : ι) :
    Reads inputs { shared := m, threads := Function.update s.threads i parser } j := by
  by_cases hj : j = i
  · subst hj
    exact hown
  · have hreads := h j
    unfold Reads at hreads ⊢
    simp only [Function.update_of_ne hj]
    cases hthread : s.threads j with
    | before => simpa only [hthread, hbuffers j hj] using hreads
    | inside rest => exact absurd hthread (halone j hj rest)
    | returned request => simpa only [hthread] using hreads

/-- A step of a worker that is alone in the function. -/
theorem parserStep_reads (h : ∀ j, Reads inputs s j) (halone : Alone s i)
    (hstep : ParserStep s i t) (j : ι) : Reads inputs t j := by
  have hreads := h i
  unfold ParserStep parserStep at hstep
  unfold Reads at hreads
  cases hthread : s.threads i with
  | before =>
    rw [hthread] at hstep hreads
    obtain ⟨request, hdone, -⟩ | ⟨rest, m, hmove, rfl⟩ := parserMove_cases hstep
    · cases hdone
    · rw [requestParseProgram_step] at hmove
      obtain ⟨hleads, hsaved, hbuffers⟩ :=
        (leadsToOwn_start hreads { s.shared with saved := none } rfl).step (by simp) hmove
      apply reads_others h halone hbuffers
      simp only [Reads, Function.update_self]
      exact ⟨hleads, hsaved⟩
  | inside rest =>
    rw [hthread] at hstep hreads
    obtain ⟨hleads, hsaved⟩ := hreads
    obtain ⟨request, rfl, rfl⟩ | ⟨rest', m, hmove, rfl⟩ := parserMove_cases hstep
    · apply reads_others h halone fun _ _ => rfl
      simp only [Reads, Function.update_self]
      exact hleads.leads.symm
    · obtain ⟨hleads', hsaved', hbuffers⟩ := hleads.step hsaved hmove
      apply reads_others h halone hbuffers
      simp only [Reads, Function.update_self]
      exact ⟨hleads', hsaved'⟩
  | returned request =>
    rw [hthread] at hstep
    cases hstep

theorem run_reads {is : List ι} (h : Run (Guarded Alone ParserStep) (parsersStart inputs) is s) :
    ∀ j, Reads inputs s j := by
  let inv : Parsers ι → Prop := fun s => ∀ j, Reads inputs s j
  refine (show inv s from Run.invariant (show inv (parsersStart inputs) from fun j => rfl) ?_ h)
  intro t i u ht hstep
  exact parserStep_reads ht hstep.1 hstep.2

/-- A move that faults is a call that faults. -/
theorem parserMove_error {program : Program ι Request} {fault : Fault}
    (h : parserMove s i program = some (.error fault)) :
    program.step s.shared = some (.error fault) := by
  unfold parserMove at h
  split at h
  · cases h
  · obtain ⟨out, hout, herror⟩ := Option.map_eq_some_iff.mp h
    cases out with
    | error e =>
      obtain rfl : e = fault := Except.error.inj herror
      exact hout
    | ok r => cases herror

/-- **One worker at a time**: along every run in which no worker enters `request_parse` while
another one is inside, every worker gets what `request_parse` makes of its own input, whatever
the inputs are, and faults only where that faults. -/
theorem parsers_apart {is : List ι}
    (h : Run (Guarded Alone ParserStep) (parsersStart inputs) is s) (i : ι) :
    (∀ request, s.threads i = .returned request →
      requestParse (receiveBuffer bufferSize (inputs i)) = .ok request) ∧
    (∀ fault, parserStep s i = some (.error fault) →
      requestParse (receiveBuffer bufferSize (inputs i)) = .error fault) := by
  have hreads := run_reads h i
  unfold Reads at hreads
  refine ⟨fun request hthread => ?_, fun fault hfault => ?_⟩
  · rw [hthread] at hreads
    exact hreads
  · unfold parserStep at hfault
    cases hthread : s.threads i with
    | before =>
      rw [hthread] at hfault hreads
      have hrun := Program.run_step_error (parserMove_error hfault)
      have hleads := (leadsToOwn_start hreads s.shared rfl).leads
      rw [hrun] at hleads
      exact hleads.symm
    | inside rest =>
      rw [hthread] at hfault hreads
      have hrun := Program.run_step_error (parserMove_error hfault)
      have hleads := hreads.1.leads
      rw [hrun] at hleads
      exact hleads.symm
    | returned request =>
      rw [hthread] at hfault
      cases hfault

end Apart

/-! ## Several calls of one worker -/

section Calls

variable {s : Parsers ι} {i : ι}

/-- The worker has made calls, and the others stand where they stood. -/
def Parsers.moved (s : Parsers ι) (i : ι) (m : Shared ι) (parser : Parser ι) : Parsers ι :=
  { shared := m, threads := Function.update s.threads i parser }

/-- The steps of worker `i` while the other workers stand as in `s`. -/
def OnlyStep (s : Parsers ι) (i : ι) (t : Parsers ι) (l : ι) (u : Parsers ι) : Prop :=
  (l = i ∧ ∀ j ≠ i, t.threads j = s.threads j) ∧ ParserStep t l u

theorem OnlyStep.alone {t u : Parsers ι} {l : ι} (h : OnlyStep s i t l u) (halone : Alone s i) :
    Guarded Alone ParserStep t l u := by
  obtain ⟨⟨rfl, hothers⟩, hstep⟩ := h
  refine ⟨fun j hj rest => ?_, hstep⟩
  rw [hothers j hj]
  exact halone j hj rest

theorem moved_threads (m : Shared ι) (parser : Parser ι) {j : ι} (hj : j ≠ i) :
    (s.moved i m parser).threads j = s.threads j := Function.update_of_ne hj _ _

theorem moved_moved (m m' : Shared ι) (parser parser' : Parser ι) :
    (s.moved i m parser).moved i m' parser' = s.moved i m' parser' := by
  simp [Parsers.moved]

theorem moved_self {parser : Parser ι} (h : s.threads i = parser) : s.moved i s.shared parser = s := by
  rw [← h, Parsers.moved, Function.update_eq_self]

/-- A call of the program is a step of its worker. -/
theorem parserMove_step {program rest : Program ι Request} {m : Shared ι}
    (h : program.step s.shared = some (.ok (rest, m))) :
    parserMove s i program = some (.ok (s.moved i m (.inside rest))) := by
  cases program with
  | done request => cases h
  | fail fault => cases h
  | strtok p delim k | readString p k | readByte p k =>
    unfold parserMove
    dsimp only
    rw [h]
    rfl

/-- The calls of one worker are steps of the process. -/
theorem run_of_steps {program rest : Program ι Request} {m m' : Shared ι}
    (h : program.Steps m rest m') :
    ∃ is, Run (OnlyStep s i) (s.moved i m (.inside program)) is (s.moved i m' (.inside rest)) := by
  unfold Program.Steps at h
  generalize hlast : (rest, m') = last at h
  induction h generalizing rest m' with
  | refl =>
    cases hlast
    exact ⟨[], Run.nil⟩
  | @tail p q _ hstep ih =>
    cases hlast
    obtain ⟨is, hrun⟩ := ih rfl
    refine ⟨is ++ [i], hrun.snoc ⟨⟨rfl, fun j hj => moved_threads _ _ hj⟩, ?_⟩⟩
    have hmove := parserMove_step (s := s.moved i p.2 (.inside p.1)) (i := i) hstep
    rw [moved_moved] at hmove
    simp only [ParserStep, parserStep, Parsers.moved, Function.update_self] at hmove ⊢
    exact hmove

/-- The first calls of a worker. -/
theorem run_enter {program rest : Program ι Request} {m m' : Shared ι}
    (hthread : s.threads i = .before)
    (hfirst : (requestParseProgram i (s.shared.buffers i).length).step s.shared =
      some (.ok (program, m)))
    (h : program.Steps m rest m') :
    ∃ is, Run (OnlyStep s i) s is (s.moved i m' (.inside rest)) := by
  have hstart : Run (OnlyStep s i) s [i] (s.moved i m (.inside program)) := by
    refine Run.single ⟨⟨rfl, fun _ _ => rfl⟩, ?_⟩
    unfold ParserStep parserStep
    rw [hthread]
    exact parserMove_step hfirst
  obtain ⟨is, hrun⟩ := run_of_steps (s := s) (i := i) h
  exact ⟨[i] ++ is, hstart.append hrun⟩

/-- The last calls of a worker. -/
theorem run_return {program : Program ι Request} {m m' : Shared ι} {request : Request}
    (h : program.run m = .ok (request, m')) :
    ∃ is, Run (OnlyStep s i) (s.moved i m (.inside program)) is (s.moved i m' (.returned request)) := by
  obtain ⟨is, hrun⟩ := run_of_steps (s := s) (i := i) (Program.steps_of_run h)
  refine ⟨is ++ [i], hrun.snoc ⟨⟨rfl, fun j hj => moved_threads _ _ hj⟩, ?_⟩⟩
  simp [ParserStep, parserStep, parserMove, Parsers.moved]

/-- A worker that no other one interrupts from the start of the function to its end. -/
theorem run_alone {request : Request} {m : Shared ι} (hthread : s.threads i = .before)
    (h : (requestParseProgram i (s.shared.buffers i).length).run s.shared = .ok (request, m)) :
    ∃ is, Run (OnlyStep s i) s is (s.moved i m (.returned request)) := by
  obtain ⟨r, hcall, hrest⟩ := bind_eq_ok.mp h
  obtain ⟨is, hrun⟩ := run_enter hthread (congrArg some (by rw [hcall]; rfl)) (Program.Steps.refl _ _)
  obtain ⟨js, hrun'⟩ := run_return (s := s) (i := i) hrest
  exact ⟨is ++ js, hrun.append hrun'⟩

/-- A worker that starts alone, and is left alone, returns its own request. -/
theorem run_own {inputs : ι → List UInt8} {request : Request} (hreads : Reads inputs s i)
    (hthread : s.threads i = .before) (halone : Alone s i)
    (hown : ownRequest inputs i = .ok request) :
    ∃ is m, Run (Guarded Alone ParserStep) s is (s.moved i m (.returned request)) := by
  unfold Reads at hreads
  rw [hthread] at hreads
  have hmatches := requestParseProgram_run s.shared i
  unfold ownRequest at hown
  rw [hreads, hown] at hmatches
  obtain ⟨⟨request', m⟩, hprogram, hrequest⟩ := hmatches.of_ok
  obtain rfl : request' = request := hrequest
  rw [← hreads] at hprogram
  obtain ⟨is, hrun⟩ := run_alone hthread hprogram
  exact ⟨is, m, hrun.mono fun t l u hstep => hstep.alone halone⟩

end Calls

theorem oneHeader_own (b : Bool) : ownRequest (fun _ : Bool => oneHeader.text) b =
    .ok { method := bytes "POST", path := bytes "/"
          headers := { fields := oneHeader.lines.map HeadLine.stored }
          body := bytes "X: y\r\n\r\n" } :=
  oneHeader.requestParse_text (by decide) (by decide)

/-- Two workers, one after the other. -/
theorem parsers_apart_two : ∃ is, ∃ s : Parsers Bool,
    Run (Guarded Alone ParserStep) (parsersStart fun _ => oneHeader.text) is s ∧
      ∃ request, s.threads false = .returned request ∧
        requestParse (receiveBuffer bufferSize oneHeader.text) = .ok request := by
  have hstart : Reads (fun _ : Bool => oneHeader.text) (parsersStart fun _ => oneHeader.text) false :=
    rfl
  obtain ⟨is, m, hfirst⟩ := run_own hstart rfl (by simp [Alone, parsersStart]) (oneHeader_own false)
  obtain ⟨js, m', hsecond⟩ := run_own (run_reads hfirst true) rfl
    (by simp [Alone, Parsers.moved, parsersStart]) (oneHeader_own true)
  have hrun := hfirst.append hsecond
  exact ⟨_, _, hrun, _, rfl, (parsers_apart hrun false).1 _ rfl⟩

/-! ## Two workers at a time -/

section Mixed

/-- The calls of `request_parse` up to the path, one after the other. -/
theorem parseStartLine_calls {st st' : CState} {method path : List UInt8} {offset : ℕ}
    (h : parseStartLine st = .ok (method, path, offset, st')) :
    ∃ line st₁ text p st₂ q st₃ token, strtok (some 0) (bytes "\r\n") st = .ok (line, st₁) ∧
      readString st₁.mem line = .ok text ∧ strtok line (bytes " ") st₁ = .ok (p, st₂) ∧
      strtok none (bytes " ") st₂ = .ok (q, st₃) ∧
      strtok none (bytes " ") st₃ = .ok (token, st') ∧ readString st'.mem q = .ok path := by
  obtain ⟨⟨line, st₁⟩, h₁, h⟩ := bind_eq_ok.mp h
  obtain ⟨text, h₂, h⟩ := bind_eq_ok.mp h
  obtain ⟨⟨p, st₂⟩, h₃, h⟩ := bind_eq_ok.mp h
  obtain ⟨⟨q, st₃⟩, h₄, h⟩ := bind_eq_ok.mp h
  obtain ⟨⟨token, st₄⟩, h₅, h⟩ := bind_eq_ok.mp h
  obtain ⟨method', -, h⟩ := bind_eq_ok.mp h
  obtain ⟨path', h₆, h⟩ := bind_eq_ok.mp h
  cases h
  exact ⟨line, st₁, text, p, st₂, q, st₃, token, h₁, h₂, h₃, h₄, h₅, h₆⟩

variable {s : Parsers ι} {i j : ι}

/-- The calls of a worker up to the path, with no other worker in between. -/
theorem enter_run {line p : Option ℕ} {st₁ st₂ : CState} {text : List UInt8}
    (hthread : s.threads i = .before)
    (hline : strtok (some 0) (bytes "\r\n") { mem := s.shared.buffers i, saved := none } =
      .ok (line, st₁))
    (htext : readString st₁.mem line = .ok text)
    (hmethod : strtok line (bytes " ") st₁ = .ok (p, st₂)) :
    ∃ is t, Run ParserStep s is t ∧
      t.threads i = .inside
        (pathProgram i (s.shared.buffers i).length (text.length + 2) (p.map (i, ·))) ∧
      View i st₂ t.shared ∧
      ∀ c ≠ i, t.threads c = s.threads c ∧ t.shared.buffers c = s.shared.buffers c := by
  obtain ⟨⟨_, m₁⟩, hcall₁, rfl, hview₁⟩ :=
    (hline ▸ strtok_start (b := i) 0 (bytes "\r\n") s.shared).of_ok
  obtain ⟨_, hread, rfl⟩ := (htext ▸ hview₁.readString line).of_ok
  obtain ⟨⟨_, m₂⟩, hcall₂, rfl, hview₂⟩ := (hmethod ▸ hview₁.strtok line (bytes " ")).of_ok
  have hfirst : (requestParseProgram i (s.shared.buffers i).length).step s.shared = some (.ok (_, m₁)) :=
    congrArg some (by rw [hcall₁]; rfl)
  obtain ⟨is, hrun⟩ := run_enter hthread hfirst
    (Program.Steps.text hread (Program.Steps.token hcall₂ (Program.Steps.refl _ _)))
  refine ⟨is, _, hrun.mono fun _ _ _ hstep => hstep.2, Function.update_self .., hview₂,
    fun c hc => ⟨moved_threads _ _ hc, ?_⟩⟩
  obtain ⟨hown, hsaved, hsame₁⟩ := Shared.strtok_own (b := i) (by simp) hcall₁
  have hfrom : ∀ q ∈ (line.map (i, ·)).or m₁.saved, q.1 = i := by
    cases line with
    | none => exact hsaved
    | some l => exact hown
  obtain ⟨-, -, hsame₂⟩ := Shared.strtok_own hfrom hcall₂
  exact (hsame₂ c hc).trans (hsame₁ c hc)

/-- A worker inside of the function that is left alone until it returns. -/
theorem resume_run {program rest : Program ι Request} {m m' : Shared ι} {request : Request}
    (hthread : s.threads i = .inside program) (hsteps : program.Steps s.shared rest m)
    (hrest : rest.run m = .ok (request, m')) :
    ∃ is t, Run ParserStep s is t ∧ t.threads i = .returned request := by
  obtain ⟨is, hrun⟩ := run_of_steps (s := s) (i := i) hsteps
  rw [moved_self hthread] at hrun
  obtain ⟨js, hrun'⟩ := run_return (s := s) (i := i) hrest
  exact ⟨is ++ js, _, (hrun.append hrun').mono fun _ _ _ hstep => hstep.2, Function.update_self ..⟩

namespace RequestHead

variable (r : RequestHead)

/-- What stands behind the start line in the buffer. -/
def behindStart : List UInt8 :=
  headers r.lines ++ 13 :: 10 :: (r.body ++ 0 :: List.replicate (bufferSize - r.text.length - 1) 0)

theorem receiveBuffer_text (hfits : r.text.length < bufferSize) :
    receiveBuffer bufferSize r.text = r.method ++ 32 :: r.path ++ r.more ++ 13 :: 10 :: r.behindStart := by
  rw [receiveBuffer_eq hfits, r.text_eq, behindStart]

/-- Behind the start line everything is read as it is meant. -/
theorem parseRest_text (hlines : r.lines ≠ []) (hfits : r.text.length < bufferSize)
    (pre path : List UInt8) :
    parseRest bufferSize r.method path pre.length
        { mem := pre ++ r.behindStart, saved := none } =
      .ok { method := r.method, path := path
            headers := { fields := r.lines.map HeadLine.stored }, body := r.body } := by
  obtain ⟨n, hn⟩ : ∃ n, bufferSize - r.text.length - 1 = n := ⟨_, rfl⟩
  have hfuel : r.lines.length ≤ bufferSize := by
    have hlength := congrArg List.length (r.text_eq [])
    have hle := r.length_lines_le
    simp only [List.length_append, List.length_cons, List.length_nil] at hlength
    omega
  obtain ⟨pre', saved', hloop⟩ := parseHeaders_lines (r.body ++ 0 :: List.replicate n 0)
    r.lines hlines bufferSize pre headersCreate none hfuel
  obtain ⟨p, st, hstrtok, hp⟩ := strtok_body pre' (List.replicate n 0) saved' r.body_clean
  rw [List.append_assoc] at hloop
  simp only [parseRest, behindStart, hn, hloop, ok_bind, hstrtok]
  rcases hp with ⟨rfl, hempty⟩ | ⟨hsome, hread⟩
  · rw [hempty]
    rfl
  · obtain ⟨q, rfl⟩ := Option.isSome_iff_exists.mp hsome
    simp only [hread, ok_bind]
    rfl

/-- The calls up to the path cut the line and the method out of the buffer. -/
theorem enter_text (hfits : r.text.length < bufferSize) :
    ∃ line st₁ text p st₂ pre,
      strtok (some 0) (bytes "\r\n") { mem := receiveBuffer bufferSize r.text, saved := none } =
        .ok (line, st₁) ∧
      readString st₁.mem line = .ok text ∧ strtok line (bytes " ") st₁ = .ok (p, st₂) ∧
      readString st₂.mem p = .ok r.method ∧ st₂.mem = pre ++ r.behindStart ∧
      pre.length = text.length + 2 := by
  have hclean : ∀ c ∈ r.method ++ 32 :: r.path ++ r.more, c ≠ 0 ∧ c ∉ bytes "\r\n" := by
    intro c hc
    simp only [List.mem_append, List.mem_cons] at hc
    have h1 := r.method_clean c
    have h2 := r.path_clean c
    have h3 := r.more_clean c
    simp only [bytes_crlf, List.mem_cons, List.not_mem_nil, or_false] at h1 h2 h3 ⊢
    grind
  have hword : ∀ c ∈ r.method, c ≠ 0 ∧ c ∉ bytes " " := by
    intro c hc
    have := r.method_clean c hc
    simp only [bytes_space, List.mem_cons, List.not_mem_nil, or_false] at this ⊢
    grind
  have h₁ := strtok_append (bytes "\r\n")
    { mem := receiveBuffer bufferSize r.text, saved := none }
    [] (r.method ++ 32 :: r.path ++ r.more) (10 :: r.behindStart) (d := 13) (s := some 0)
    (r.receiveBuffer_text hfits) rfl (by simp) hclean (by simp [bytes_crlf]) (by simp)
  have h₂ := readString_append [] (r.method ++ 32 :: r.path ++ r.more) (10 :: r.behindStart)
    fun c hc => (hclean c hc).1
  have h₃ := strtok_append (bytes " ")
    { mem := [] ++ (r.method ++ 32 :: r.path ++ r.more) ++ 0 :: 10 :: r.behindStart
      saved := some (([] : List UInt8).length + (r.method ++ 32 :: r.path ++ r.more).length + 1) }
    [] r.method (r.path ++ r.more ++ 0 :: 10 :: r.behindStart) (d := 32)
    (s := some ([] : List UInt8).length) (by simp) rfl r.method_ne hword
    (by simp [bytes_space]) (by simp)
  have h₄ := readString_append [] r.method (r.path ++ r.more ++ 0 :: 10 :: r.behindStart)
    fun c hc => (hword c hc).1
  refine ⟨_, _, _, _, _, r.method ++ 0 :: r.path ++ r.more ++ [0, 10], h₁, h₂, h₃, h₄, ?_, ?_⟩
  · simp
  · simp only [List.length_append, List.length_cons, List.length_nil]

end RequestHead

theorem length_receiveBuffer {input : List UInt8} (h : input.length < bufferSize) :
    (receiveBuffer bufferSize input).length = bufferSize := by
  rw [receiveBuffer, List.length_append, List.length_replicate]
  omega

/-- What follows the start line finds its own position. -/
theorem parseRestProgram_saved (fuel offset : ℕ) (method path : List UInt8) (m : Shared ι) :
    (parseRestProgram i (fuel + 1) method path offset).run m =
      (parseRestProgram i (fuel + 1) method path offset).run { m with saved := none } := rfl

theorem RequestHead.parseRestProgram_text (r : RequestHead) (i : ι) {m : Shared ι}
    {mem pre text : List UInt8} (hlines : r.lines ≠ []) (hfits : r.text.length < bufferSize)
    (hmem : mem = pre ++ r.behindStart) (hpre : pre.length = text.length + 2)
    (hbuffer : m.buffers i = mem) (path : List UInt8) :
    ∃ m', (parseRestProgram i bufferSize r.method path (text.length + 2)).run m =
      .ok ({ method := r.method, path := path
             headers := { fields := r.lines.map HeadLine.stored }, body := r.body }, m') := by
  have hview : View i { mem := mem, saved := none } { m with saved := none } := ⟨hbuffer, rfl⟩
  have hmatches := parseRestProgram_run hview bufferSize r.method path (text.length + 2)
  rw [hmem, ← hpre, r.parseRest_text hlines hfits] at hmatches
  obtain ⟨⟨_, m'⟩, hrun, rfl⟩ := hmatches.of_ok
  obtain ⟨k, hk⟩ : ∃ k, bufferSize = k + 1 := ⟨_, rfl⟩
  rw [hpre, hk] at hrun
  rw [hk]
  exact ⟨m', (parseRestProgram_saved k _ _ _ m).trans hrun⟩

/-- A worker in front of its path that finds the position of another one goes on in the buffer
of the other one. -/
theorem pathProgram_steps {m : Shared ι} {st₂ st₂' st₃ st' : CState} {p q token : Option ℕ}
    {method path : List UInt8} (hij : i ≠ j) (hview : View j st₂' m)
    (hbuffer : m.buffers i = st₂.mem) (hread : readString st₂.mem p = .ok method)
    (hpath : strtok none (bytes " ") st₂' = .ok (q, st₃))
    (htoken : strtok none (bytes " ") st₃ = .ok (token, st'))
    (hreadPath : readString st'.mem q = .ok path) (fuel offset : ℕ) :
    ∃ m', (pathProgram i fuel offset (p.map (i, ·))).Steps m
        (parseRestProgram i fuel method path offset) m' ∧ m'.buffers i = st₂.mem := by
  have hown : ∀ {st : CState} {m : Shared ι}, View j st m → ∀ q ∈ m.saved, q.1 = j := by
    intro st m h q hq
    rw [h.saved] at hq
    obtain ⟨o, -, rfl⟩ := Option.map_eq_some_iff.mp hq
    rfl
  obtain ⟨⟨_, m₁⟩, hcall₁, rfl, hview₁⟩ := (hpath ▸ hview.strtok none (bytes " ")).of_ok
  obtain ⟨⟨_, m₂⟩, hcall₂, rfl, hview₂⟩ := (htoken ▸ hview₁.strtok none (bytes " ")).of_ok
  obtain ⟨-, -, hsame₁⟩ := Shared.strtok_own (hown hview) hcall₁
  obtain ⟨-, -, hsame₂⟩ := Shared.strtok_own (hown hview₁) hcall₂
  have hbuffer₂ : m₂.buffers i = st₂.mem := by rw [hsame₂ i hij, hsame₁ i hij, hbuffer]
  obtain ⟨p, rfl⟩ := readString_isSome hread
  have hreadMethod : m₂.readString (some (i, p)) = .ok method := by
    rw [← hread, ← hbuffer₂]
    rfl
  obtain ⟨_, hreadPath₂, rfl⟩ := (hreadPath ▸ hview₂.readString q).of_ok
  refine ⟨m₂, ?_, hbuffer₂⟩
  exact Program.Steps.token hcall₁ (Program.Steps.token hcall₂ (Program.Steps.text hreadMethod
    (Program.Steps.text hreadPath₂ (Program.Steps.refl _ _))))

/-- **Two workers at a time**: whatever two requests are parsed, their workers can come between
each other's calls so that the first one returns with the path of the second. -/
theorem parsers_mix {inputs : ι → List UInt8} (hij : i ≠ j) (r r' : RequestHead)
    (hi : inputs i = r.text) (hj : inputs j = r'.text) (hlines : r.lines ≠ [])
    (hfits : r.text.length < bufferSize) (hfits' : r'.text.length < bufferSize) :
    ∃ is s, Run ParserStep (parsersStart inputs) is s ∧ s.threads i =
      .returned { method := r.method, path := r'.path
                  headers := { fields := r.lines.map HeadLine.stored }, body := r.body } := by
  -- the first worker stops in front of its path
  obtain ⟨line, st₁, text, p, st₂, pre, hline, htext, hmethod, hread, hmem, hpre⟩ :=
    r.enter_text hfits
  have hbuffer : (parsersStart inputs).shared.buffers i = receiveBuffer bufferSize r.text := by
    rw [← hi]
    rfl
  obtain ⟨is, s, hrun, hthread, hview, hothers⟩ := enter_run (s := parsersStart inputs) (i := i) rfl
    (hbuffer ▸ hline) htext hmethod
  rw [hbuffer, length_receiveBuffer hfits] at hthread
  -- so does the second one
  obtain ⟨hthread', hbuffer'⟩ := hothers j hij.symm
  obtain ⟨pre', saved', hstart⟩ := parseStartLine_words r'.method_ne r'.path_ne r'.method_clean
    r'.path_clean r'.more_space r'.more_clean r'.behindStart
  have hbuffer'' : s.shared.buffers j = receiveBuffer bufferSize r'.text := by
    rw [hbuffer', ← hj]
    rfl
  rw [← r'.receiveBuffer_text hfits', ← hbuffer''] at hstart
  obtain ⟨line', st₁', text', p', st₂', q, st₃', token, hline', htext', hmethod', hpath, htoken,
    hreadPath⟩ := parseStartLine_calls hstart
  obtain ⟨js, t, hrun', -, hview', hothers'⟩ := enter_run hthread' hline' htext' hmethod'
  obtain ⟨hthread₂, hbuffer₂⟩ := hothers' i hij
  -- the first one finds the position of the second, and then its own buffer
  obtain ⟨m, hsteps, hbuffer₃⟩ := pathProgram_steps hij hview' (hbuffer₂.trans hview.mem) hread
    hpath htoken hreadPath bufferSize (text.length + 2)
  obtain ⟨m', hrest⟩ := r.parseRestProgram_text i hlines hfits hmem hpre hbuffer₃ r'.path
  obtain ⟨ks, u, hrun'', hreturned⟩ := resume_run (hthread₂.trans hthread) hsteps hrest
  exact ⟨_, u, (hrun.append hrun').append hrun'', hreturned⟩

theorem secret_ne : bytes "/secret" ≠ [] := by decide

theorem secret_clean : ∀ c ∈ bytes "/secret", c ∉ [0, 10, 13, 32] :=
  List.all_iff_forall_prop.mp (by decide)

/-- The request with another path. -/
def secretPath : RequestHead :=
  { oneHeader with path := bytes "/secret", path_ne := secret_ne, path_clean := secret_clean }

/-- The inputs of two workers. -/
def twoInputs : Bool → List UInt8
  | false => oneHeader.text
  | true => secretPath.text

theorem parsers_mix_secret : ∃ is, ∃ s : Parsers Bool,
    Run ParserStep (parsersStart twoInputs) is s ∧
      ∃ request, s.threads false = .returned request ∧ request.path = bytes "/secret" ∧
        request.body = oneHeader.body := by
  obtain ⟨is, s, hrun, hreturned⟩ := parsers_mix Bool.false_ne_true oneHeader secretPath
    (show twoInputs false = _ from rfl) (show twoInputs true = _ from rfl) (by decide) (by decide)
    (by decide)
  exact ⟨is, s, hrun, _, hreturned, rfl, rfl⟩

end Mixed

end NetworkServers.Http
