import NetworkServers.Library.JsonRoundTrip
import NetworkServers.Phase2.Data

/-!
# The Data Files as Text

`retrieve` and `persist` of `src/phase2/src/server/data/user.ts` and `chat.ts`, which are
the same in both, down to the bytes of a file, and the operations of `chat.ts` on them. A
file that does not exist is `none`. Records that have been stored come back as they were.
-/

namespace NetworkServers.Phase2

open NetworkServers.Js

/-! ## retrieve and persist -/

/-- The bytes of a data file, if there is one. -/
abbrev FileBytes := Option (List UInt8)

/-- `retrieve()` with the value for a missing file, `none` where it throws. -/
def retrieveOr (missing : Json) : FileBytes → Option Json
  | some raw => Json.parse (utf8Decode raw)
  | none => some missing

/-- `persist(data)`. The directory is there or is made. -/
def persist (data : Json) : List UInt8 := utf8Encode data.stringify

/-- `retrieve()` of `user.ts`. -/
def retrieveUsers : FileBytes → Option Json := retrieveOr (.object [])

/-- `retrieve()` of `chat.ts`. -/
def retrieveChats : FileBytes → Option Json := retrieveOr (.array [])

/-- What has been persisted is retrieved. -/
theorem retrieveOr_persist {data : Json} (h : data.Valid) (missing : Json) :
    retrieveOr missing (some (persist data)) = some data :=
  Json.parse_utf8Decode h

/-! ## Chats -/

/-- A chat record as JSON. A user that is `undefined` is left out. -/
def ChatData.toJson (chat : ChatData) : Json :=
  .object ((chat.user.map fun user => (js "user", Json.string user)).toList ++
    [(js "message", .string chat.message), (js "timestamp", .number (Json.decimal chat.timestamp))])

/-- The text of a string. -/
def stringOf : Json → Option JsString
  | .string text => some text
  | _ => none

/-- The value of a number without sign, fraction and exponent. -/
def naturalOf : Json → Option ℕ
  | .number numeral => if numeral.all Json.isDigit then some (Json.digitsValue numeral) else none
  | _ => none

/-- A JSON value as a chat record. -/
def ChatData.ofJson : Json → Option ChatData
  | .object properties => do
    let message ← (Json.getProperty properties (js "message")).bind stringOf
    let timestamp ← (Json.getProperty properties (js "timestamp")).bind naturalOf
    let user := (Json.getProperty properties (js "user")).bind stringOf
    return { user := user, message := message, timestamp := timestamp }
  | _ => none

/-- The chat history as JSON. -/
def chatsJson (chats : List ChatData) : Json := .array (chats.map ChatData.toJson)

/-- `get_chat()` on the file, `none` where it throws or a record is none. -/
def getChatFile (file : FileBytes) : Option (List ChatData) := do
  match ← retrieveChats file with
  | .array elements => elements.mapM ChatData.ofJson
  | _ => none

/-- `add_chat(chat)` on the file, `none` where it throws. -/
def addChatFile (file : FileBytes) (chat : ChatData) : Option FileBytes := do
  match ← retrieveChats file with
  | .array elements => some (some (persist (.array (elements ++ [chat.toJson]))))
  | _ => none

/-- The file holds these chats. -/
def ChatFile (file : FileBytes) (chats : List ChatData) : Prop :=
  (file = none ∧ chats = []) ∨ file = some (persist (chatsJson chats))

theorem ChatData.toJson_valid (chat : ChatData) : chat.toJson.Valid := by
  -- the names are no array indices, so that they keep their order
  have hnames : ∀ key ∈ [js "user", js "message", js "timestamp"], Json.arrayIndex key = none := by
    decide
  apply Json.Valid.object
  · apply Json.enumerated_of_names
    · cases chat.user with
      | none => exact (by decide : [js "message", js "timestamp"].Nodup)
      | some user => exact (by decide : [js "user", js "message", js "timestamp"].Nodup)
    · intro key hkey
      apply hnames
      cases hu : chat.user with
      | none =>
        rw [hu] at hkey
        exact List.mem_cons_of_mem _ hkey
      | some user =>
        rw [hu] at hkey
        exact hkey
  · intro p hp
    rcases List.mem_append.mp hp with hp | hp
    · obtain ⟨user, -, rfl⟩ := Option.map_eq_some_iff.mp (Option.mem_toList.mp hp)
      exact .string user
    · simp only [List.mem_cons, List.not_mem_nil, or_false] at hp
      rcases hp with rfl | rfl
      · exact .string _
      · exact .number (Json.isNumeral_decimal _)

theorem chatsJson_valid (chats : List ChatData) : (chatsJson chats).Valid := by
  apply Json.Valid.array
  intro v hv
  obtain ⟨chat, -, rfl⟩ := List.mem_map.mp hv
  exact chat.toJson_valid

/-- A chat record reads back. -/
theorem ChatData.ofJson_toJson (chat : ChatData) : ChatData.ofJson chat.toJson = some chat := by
  have htimestamp : naturalOf (.number (Json.decimal chat.timestamp)) = some chat.timestamp := by
    rw [naturalOf, if_pos (List.all_eq_true.mpr fun c hc => Json.isDigit_of_mem_decimal hc),
      Json.digitsValue_decimal]
  obtain ⟨user, message, timestamp⟩ := chat
  have hkeys : js "user" ≠ js "message" ∧ js "user" ≠ js "timestamp" ∧
      js "message" ≠ js "timestamp" ∧ js "message" ≠ js "user" ∧ js "timestamp" ≠ js "user" := by
    decide
  cases user with
  | none => simp [ofJson, toJson, Json.getProperty, hkeys, stringOf, htimestamp]
  | some user => simp [ofJson, toJson, Json.getProperty, hkeys, stringOf, htimestamp]

section ChatFile

variable {file : FileBytes} {chats : List ChatData}

theorem ChatFile.retrieve (h : ChatFile file chats) : retrieveChats file = some (chatsJson chats) := by
  rcases h with ⟨rfl, rfl⟩ | rfl
  · rfl
  · exact retrieveOr_persist (chatsJson_valid chats) _

/-- **`get_chat`** gives the records that are stored. -/
theorem ChatFile.get (h : ChatFile file chats) : getChatFile file = some (getChat chats) := by
  rw [getChatFile, h.retrieve]
  show (chats.map ChatData.toJson).mapM ChatData.ofJson = some chats
  clear h
  induction chats with
  | nil => rfl
  | cons chat chats ih => simp [List.mapM_cons, ChatData.ofJson_toJson, ih]

/-- **`add_chat`** puts a record behind those that are stored. -/
theorem ChatFile.add (h : ChatFile file chats) (chat : ChatData) :
    ∃ file', addChatFile file chat = some file' ∧ ChatFile file' (addChat chats chat) := by
  refine ⟨some (persist (chatsJson (addChat chats chat))), ?_, .inr rfl⟩
  have hpush : chatsJson (addChat chats chat) =
      .array (chats.map ChatData.toJson ++ [chat.toJson]) := by
    rw [addChat, chatsJson, List.map_append]
    rfl
  rw [addChatFile, h.retrieve, hpush]
  rfl

end ChatFile

end NetworkServers.Phase2
