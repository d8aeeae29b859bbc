import NetworkServers.Library.CString

/-!
# Header Tables

Translation of the parts of `src/src/headers.c` that the request parser and the
renderers use. A header's strings are the bytes up to their NUL; the table is the
list of its fields in the order in which they were set.
-/

namespace NetworkServers.Http

open NetworkServers.CString

/-- `struct Header`. -/
structure Header where
  name : List UInt8
  value : List UInt8
deriving DecidableEq, Repr

/-- `struct Headers`; its `size` is the number of fields. -/
structure Headers where
  fields : List Header
deriving DecidableEq, Repr

/-- `tolower` of the C locale. -/
def tolower (c : UInt8) : UInt8 :=
  if 65 ≤ c ∧ c ≤ 90 then c + 32 else c

theorem tolower_tolower (c : UInt8) : tolower (tolower c) = tolower c := by
  unfold tolower
  grind

/-- Lower-casing makes no byte a delimiter or a NUL. -/
theorem tolower_notMem (c : UInt8) (h : c ∉ [0, 10, 13, 32, 58]) :
    tolower c ∉ [0, 10, 13, 32, 58] := by
  unfold tolower
  simp only [List.mem_cons, List.not_mem_nil, or_false] at h ⊢
  grind

/-- No byte is in upper case after `tolower`. -/
theorem tolower_not_upper (c : UInt8) : ¬(65 ≤ tolower c ∧ tolower c ≤ 90) := by
  unfold tolower
  grind

/-- `headers_create`. -/
def headersCreate : Headers := { fields := [] }

/-- `headers_set`: append a field with the lower-cased name. A `NULL` name or value
counts as the empty string. -/
def headersSet (headers : Headers) (name value : Option (List UInt8)) : Headers :=
  { fields := headers.fields ++
      [{ name := (name.getD []).map tolower, value := value.getD [] }] }

/-- `headers_get`: the value of the first field with the lower-cased name. -/
def headersGet (headers : Headers) (name : List UInt8) : Option (List UInt8) :=
  (headers.fields.find? fun field => field.name = name.map tolower).map Header.value

/-- The size of the buffers that the renderers write into. -/
def textBufferSize : ℕ := 1024 * 1024

/-- `"%s: %s\r\n"` of one field. -/
def headerLine (field : Header) : List UInt8 :=
  field.name ++ bytes ": " ++ field.value ++ bytes "\r\n"

/-- `headers_to_string`: the lines of all fields, as long as they fit into the buffer
together with their NUL. -/
def headersToString (headers : Headers) : Except Fault (List UInt8) :=
  let text := headers.fields.flatMap headerLine
  if text.length < textBufferSize then .ok text else .error .outOfBounds

end NetworkServers.Http
