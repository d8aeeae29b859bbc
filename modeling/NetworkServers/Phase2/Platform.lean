import NetworkServers.Library.JsObject

/-!
# The Platform of the Phase 2 Server

What the server in `src/phase2` uses of JavaScript, Node and the machine it runs on
without being able to look inside: case mapping, URL parsing, SHA-256, the rendering of
dates and objects, and the files under the static directory. A `Platform` is one choice
of all of these; everything proved about the server holds for every choice.
-/

namespace NetworkServers.Phase2

open NetworkServers.Js

/-! ## Files -/

/-- A file as a read stream hands it out: in chunks, none of them empty. -/
structure FileContent where
  chunks : List (List UInt8)
  chunks_ne : ∀ chunk ∈ chunks, chunk ≠ []

/-- What stands at a path. -/
inductive FsNode where
  | directory
  | file (content : FileContent)

/-! ## Requests -/

/-- The part of a `URL` that the handlers look at. -/
structure Url where
  pathname : JsString
deriving DecidableEq, Repr

/-- `HTTPContext` of `context.ts`, without its socket. The values of a header that has
no `": "` are `undefined`. -/
structure HTTPContext where
  method : JsString
  path : Url
  headers : Dict JsString (List (Option JsString))
  body : JsString

/-- A value of `webcrypto.randomUUID()`, made of ASCII characters. -/
structure Uuid where
  text : JsString
  ascii : ∀ c ∈ text, c < 128
deriving DecidableEq

/-! ## The platform -/

/-- `toLowerCase` of an ASCII character. -/
def asciiLower (c : UInt16) : UInt16 := if 65 ≤ c ∧ c ≤ 90 then c + 32 else c

/-- `toUpperCase` of an ASCII character. -/
def asciiUpper (c : UInt16) : UInt16 := if 97 ≤ c ∧ c ≤ 122 then c - 32 else c

/-- The surroundings of the server. -/
structure Platform where
  toLowerCase : JsString → JsString
  toUpperCase : JsString → JsString
  lower_ascii : ∀ s : JsString, (∀ c ∈ s, c < 128) → toLowerCase s = s.map asciiLower
  upper_ascii : ∀ s : JsString, (∀ c ∈ s, c < 128) → toUpperCase s = s.map asciiUpper
  /-- `new URL(url, base)`, `none` where it throws. -/
  newURL : JsString → JsString → Option Url
  /-- `webcrypto.subtle.digest("SHA-256", data)`. -/
  sha256 : List UInt8 → List UInt8
  sha256_length : ∀ data, (sha256 data).length = 32
  /-- `new Date(timestamp).toLocaleString()`. -/
  toLocaleString : ℕ → JsString
  /-- The number that `compute_sqrt` arrives at, as text. -/
  sqrtSum : JsString
  /-- `JSON.stringify(ctx, null, 2)` of a context with its socket, `none` where it
  throws. -/
  stringify : HTTPContext → Option JsString
  /-- An inherited property as text. -/
  inheritedText : JsString → JsString
  /-- `fs.existsSync`, `fs.statSync` and the reads under the working directory. -/
  files : JsString → Option FsNode

/-! ## A sample platform -/

/-- The digests of the two passwords that examples use. -/
def sampleSha256 (data : List UInt8) : List UInt8 :=
  if data = utf8Encode (js "password1") then
    [11, 20, 213, 1, 165, 148, 68, 42, 1, 198, 133, 149, 65, 188, 179, 232, 22, 77, 24, 61,
       50, 147, 123, 133, 24, 53, 68, 47, 105, 213, 201, 78]
  else if data = utf8Encode (js "password2") then
    [108, 246, 21, 213, 188, 170, 199, 120, 53, 42, 143, 31, 51, 96, 210, 63, 2, 243, 78,
       193, 130, 226, 89, 137, 127, 214, 206, 72, 93, 120, 112, 212]
  else List.replicate 32 0

/-- A chat page that holds the chats and nothing else. -/
def sampleFiles (path : JsString) : Option FsNode :=
  if path = js "./site/static" then some .directory
  else if path = js "site/static/chat.html" then
    some (.file { chunks := [utf8Encode (js "$\x7bchats\x7d")], chunks_ne := by decide })
  else none

/-- A platform for examples: it does what the real ones do for requests whose target is
a plain path and whose texts are ASCII. -/
def samplePlatform : Platform where
  toLowerCase := List.map asciiLower
  toUpperCase := List.map asciiUpper
  lower_ascii := fun _ _ => rfl
  upper_ascii := fun _ _ => rfl
  newURL := fun url _ => some { pathname := url.takeWhile fun c => c ≠ 63 ∧ c ≠ 35 }
  sha256 := sampleSha256
  sha256_length := fun data => by
    unfold sampleSha256
    split
    · rfl
    split <;> rfl
  toLocaleString := fun _ => js "1/1/2024, 12:00:00 AM"
  sqrtSum := js "666666661666.567"
  stringify := fun _ => none
  inheritedText := fun _ => js "[object Object]"
  files := sampleFiles

/-- A UUID as `randomUUID` makes them. -/
def sampleUuid : Uuid where
  text := js "123e4567" ++ js "-e89b-42d3" ++ js "-a456-426614174000"
  ascii := List.all_iff_forall_prop.mp (by decide)

end NetworkServers.Phase2
