import NetworkServers.Http.Headers

/-!
# The Request Parser

Translation of `request_parse` of `src/src/request.c`, on the buffer that
`handle_client` hands to it. Every pointer of the function points into the buffer,
so pointers are offsets; `strtok` carries its position and its cuts in `CState`.
-/

namespace NetworkServers.Http

open NetworkServers.CString NetworkServers.Machine

/-- `struct Request`. -/
structure Request where
  method : List UInt8
  path : List UInt8
  headers : Headers
  body : List UInt8
deriving DecidableEq, Repr

/-- `strncmp(buffer + offset, "\r\n", 2) == 0`. -/
def startsWithCrlf (mem : Memory) (offset : ℕ) : Except Fault Bool := do
  let c ← readByte mem (some offset)
  if c = 13 then
    let d ← readByte mem (some (offset + 1))
    return d = 10
  else return false

/-- The body of the header loop of `request_parse`: the line starts at `line` and
`offset` has been moved behind it. The result tells whether the loop goes on, and from
which offset. -/
def parseHeader (line offset : ℕ) (headers : Headers) (st : CState) :
    Except Fault (Bool × ℕ × Headers × CState) := do
  let (name, st) ← strtok (some line) (bytes ": ") st
  let (value, st) ← strtok none [] st
  -- value[0] == ' ' ? value + 1 : value
  let first ← readByte st.mem value
  let value ← readString st.mem (if first = 32 then value.map (· + 1) else value)
  let name ← match name with
    | none => pure none
    | some p => some <$> readString st.mem (some p)
  let headers := headersSet headers name (some value)
  let blank ← startsWithCrlf st.mem offset
  return (!blank, if blank then offset + 2 else offset, headers, st)

/-- The header loop of `request_parse`. The first argument bounds the number of its
iterations. -/
def parseHeaders : ℕ → ℕ → Headers → CState → Except Fault (ℕ × Headers × CState)
  | 0, _, _, _ => .error .runsOn
  | fuel + 1, offset, headers, st => do
    let (line, st) ← strtok (some offset) (bytes "\r\n") st
    match line with
    | none => return (offset, headers, st)
    | some line => do
      let text ← readString st.mem (some line)
      if text.length = 0 then return (offset, headers, st)
      else do
        let (goOn, offset, headers, st) ← parseHeader line (offset + text.length + 2) headers st
        if goOn then parseHeaders fuel offset headers st
        else return (offset, headers, st)

/-- The start line of `request_parse`: method, path, and the offset behind the line. -/
def parseStartLine (st : CState) :
    Except Fault (List UInt8 × List UInt8 × ℕ × CState) := do
  let (line, st) ← strtok (some 0) (bytes "\r\n") st
  let text ← readString st.mem line
  let offset := text.length + 2
  let (method, st) ← strtok line (bytes " ") st
  let (path, st) ← strtok none (bytes " ") st
  -- the HTTP version is skipped
  let (_, st) ← strtok none (bytes " ") st
  let method ← readString st.mem method
  let path ← readString st.mem path
  return (method, path, offset, st)

/-- `request_parse`. -/
def requestParse (buffer : Memory) : Except Fault Request := do
  let (method, path, offset, st) ← parseStartLine { mem := buffer, saved := none }
  let (offset, headers, st) ← parseHeaders buffer.length offset headersCreate st
  let (body, st) ← strtok (some offset) [] st
  let body ← match body with
    | none => pure []
    | some p => readString st.mem (some p)
  return { method := method, path := path, headers := headers, body := body }

/-- The zero-filled buffer of `handle_client` after `read` has stored `input` in it. -/
def receiveBuffer (bufferSize : ℕ) (input : List UInt8) : Memory :=
  input ++ List.replicate (bufferSize - input.length) 0

/-- Behind the input the buffer holds NUL bytes only, and at least one of them. -/
theorem receiveBuffer_eq {bufferSize : ℕ} {input : List UInt8} (h : input.length < bufferSize) :
    receiveBuffer bufferSize input =
      input ++ 0 :: List.replicate (bufferSize - input.length - 1) 0 := by
  rw [receiveBuffer, ← List.replicate_succ, Nat.sub_add_cancel (Nat.sub_pos_of_lt h)]

theorem terminated_receiveBuffer {bufferSize : ℕ} {input : List UInt8}
    (h : input.length < bufferSize) : Terminated (receiveBuffer bufferSize input) := by
  rw [receiveBuffer_eq h, Terminated, ← List.getLast?_eq_getElem?, List.getLast?_append]
  simp only [List.getLast?_cons, List.getLast?_replicate, Option.some_or, Option.some.injEq]
  split <;> rfl

end NetworkServers.Http
