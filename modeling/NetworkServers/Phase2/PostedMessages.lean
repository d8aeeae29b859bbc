import NetworkServers.Library.FormEncoding
import NetworkServers.Phase2.ChatHistory
import NetworkServers.Phase2.DataFiles
import NetworkServers.Phase2.ParseRoundTrip

/-!
# Posted Messages

A message goes through the form encoding of the browser, the line splitting of `parse`, the
field splitting of `ctx.form`, percent-decoding, and the JSON text of the data file. What
`get_chat` gives back is the beginning of the message as it was typed, also where it is cut
in the middle of a surrogate pair.
-/

namespace NetworkServers.Phase2

open NetworkServers.Js

/-! ## The body of a request -/

/-- The body stands behind the first empty line. -/
theorem body_of_text {p : Platform} {head body : JsString} {ctx : HTTPContext}
    (hhead : [] ∉ split (js "\r\n") head)
    (h : parse p (head ++ js "\r\n\r\n" ++ body) = some ctx) : ctx.body = body := by
  have hsplit : split (js "\r\n") (head ++ js "\r\n\r\n" ++ body) =
      split (js "\r\n") head ++ [] :: split (js "\r\n") body := by
    have hcut : head ++ js "\r\n\r\n" ++ body =
        head ++ (js "\r\n" ++ (js "\r\n" ++ body)) := by
      simp only [List.append_assoc]
      rfl
    have hempty : split (js "\r\n") (js "\r\n" ++ body) = [] :: split (js "\r\n") body :=
      split_sep 13 [10] body
    rw [hcut, ← hempty]
    exact split_append_sep (by decide) head _
  obtain ⟨first, lines, hlines⟩ := List.exists_cons_of_ne_nil (split_ne_nil (js "\r\n") head)
  rw [hlines] at hsplit hhead
  -- none of the lines in front ends the headers
  have hne : ∀ line ∈ lines, line ≠ [] := by
    rintro line hline rfl
    exact hhead (List.mem_cons_of_mem _ hline)
  obtain ⟨-, -, hbody⟩ := parse_parts h
  rw [hsplit, List.cons_append, List.tail_cons, (headerLines_append _ hne).2] at hbody
  exact hbody.trans (intercalate_split 13 [10] body)

/-! ## The form -/

/-- The field `message` of a form that has only this one. -/
theorem field_message {ctx : HTTPContext} {m : String}
    (hbody : ctx.body = js "message=" ++ formEncode m) :
    field ctx.form (js "message") = some (formEncode m) := by
  have hand : 38 ∉ ctx.body := by
    rw [hbody, List.mem_append, not_or]
    exact ⟨by decide, fun hmem => (formEncode_ne hmem).2.1 rfl⟩
  have hname : 61 ∉ js "message" := by decide
  have hvalue : 61 ∉ formEncode m := fun hmem => (formEncode_ne hmem).2.2 rfl
  -- one field, with one equals sign
  have hpair : split (js "=") ctx.body = [js "message", formEncode m] := by
    have hcut : ctx.body = js "message" ++ (js "=" ++ formEncode m) := hbody
    have hrest := split_of_not_mem (List.mem_singleton_self 61) hvalue
    rw [hcut, ← hrest]
    exact split_append hname (formEncode m)
  have hfields : split (js "&") ctx.body = [ctx.body] :=
    split_of_not_mem (List.mem_singleton_self 38) hand
  have hform : ctx.form = assignField Dict.empty (js "message") (some (formEncode m)) := by
    rw [HTTPContext.form, hfields, List.foldl_cons, List.foldl_nil, addField, keyValue, hpair]
    rfl
  rw [hform, assignField, if_neg (by decide), field, Dict.get?_set_self]
  rfl

/-- **The message** that a handler gets is the one that was typed, up to its length. -/
theorem postedMessage_formEncode {ctx : HTTPContext} {m : String}
    (hbody : ctx.body = js "message=" ++ formEncode m) :
    postedMessage ctx = some ((utf16 m).take 1024) := by
  rw [postedMessage, field_message hbody]
  show (decodeURIComponent (replaceChar 43 (js " ") (formEncode m))).bind _ = _
  rw [decodeURIComponent_formEncode]
  rfl

/-! ## The record -/

/-- A data event with a `POST /chat` of a session whose body is the form of a message. -/
structure TypedRequest (p : Platform) (users : UserTable) (data : List UInt8) (m : String)
    (u : UserData) : Prop where
  /-- The message stands behind the first empty line. -/
  body : ∃ head, [] ∉ split (js "\r\n") head ∧
    utf8Decode data = head ++ js "\r\n\r\n" ++ (js "message=" ++ formEncode m)
  served : (makeRouter p).isSome
  session : ∃ ctx, parse p (utf8Decode data) = some ctx ∧ ctx.method = js "POST" ∧
    ctx.path.pathname = js "/chat" ∧ getUser users ctx.userCookie = some u ∧
    ctx.tokenCookie = u.token

theorem TypedRequest.postRequest {p : Platform} {users : UserTable} {data : List UInt8}
    {m : String} {u : UserData} (h : TypedRequest p users data m u) :
    ∃ ctx, PostRequest p users (utf8Decode data) ctx u ((utf16 m).take 1024) := by
  obtain ⟨head, hhead, htext⟩ := h.body
  obtain ⟨ctx, hparse, hmethod, hpath, hfound, hsession⟩ := h.session
  exact ⟨ctx, hparse, h.served, hpath, hfound, hsession, hmethod,
    postedMessage_formEncode (body_of_text hhead (htext ▸ hparse))⟩

/-- **A posted message is stored as typed**: the request adds one record, with the user of the
session and at most 1024 code units of the message, and `get_chat` reads it back from the file
behind the records that were there. -/
theorem stored_as_typed {p : Platform} {s : Store} {data : List UInt8} {m : String} {u : UserData}
    (h : TypedRequest p s.users data m u) (env : Env) {file : FileBytes}
    (hfile : ChatFile file s.chats) :
    ∃ record : ChatData, record.message = (utf16 m).take 1024 ∧ record.user = u.id ∧
      ((handle p (utf8Decode data)).run env s).store.chats = s.chats ++ [record] ∧
      ∃ file', addChatFile file record = some file' ∧
        getChatFile file' = some (getChat s.chats ++ [record]) := by
  obtain ⟨ctx, hpost⟩ := h.postRequest
  refine ⟨{ user := u.id, message := (utf16 m).take 1024, timestamp := env.now }, rfl, rfl, ?_, ?_⟩
  · rcases handle_chats (utf8Decode data) env s with ⟨ctx', u', message', hpost', hchats⟩ | ⟨hno, -⟩
    · -- the request has one context, one user and one message
      obtain rfl := Option.some.inj (hpost.parsed.symm.trans hpost'.parsed)
      obtain rfl := Option.some.inj (hpost.found.symm.trans hpost'.found)
      obtain rfl := Option.some.inj (hpost.message.symm.trans hpost'.message)
      exact hchats
    · exact absurd hpost (hno _ _ _)
  · obtain ⟨file', hadd, hfile'⟩ := hfile.add
      { user := u.id, message := (utf16 m).take 1024, timestamp := env.now }
    exact ⟨file', hadd, hfile'.get⟩

/-- Alice has a session and nothing has been posted. -/
def aliceStore : Store :=
  { users := Dict.empty.set (js "alice") { id := some (js "alice"), token := some (js "00") }
    chats := [] }

/-- Alice posts `1 + é = &`. -/
def alicePosts : JsString :=
  sampleRequest "POST" "/chat" (js "user=alice; token=00")
    (js "message=" ++ formEncode "1 + é = &")

/-- Alice's message is stored as she typed it. -/
theorem stored_as_typed_alice :
    ∃ record : ChatData, record.message = (utf16 "1 + é = &").take 1024 ∧
      record.user = some (js "alice") ∧
      ((handle samplePlatform (utf8Decode (utf8Encode alicePosts))).run sampleEnv
        aliceStore).store.chats = [record] ∧
      ∃ file', addChatFile none record = some file' ∧ getChatFile file' = some [record] := by
  have htext : utf8Decode (utf8Encode alicePosts) = alicePosts := by decide +kernel
  have hparse : (parse samplePlatform alicePosts).map (fun ctx => (ctx.method, ctx.path.pathname,
      getUser aliceStore.users ctx.userCookie, ctx.tokenCookie)) =
      some (js "POST", js "/chat",
        some { id := some (js "alice"), token := some (js "00") }, some (js "00")) := by
    decide +kernel
  obtain ⟨ctx, hctx, hfields⟩ := Option.map_eq_some_iff.mp hparse
  simp only [Prod.mk.injEq] at hfields
  obtain ⟨hmethod, hpath, hfound, htoken⟩ := hfields
  have hrequest : TypedRequest samplePlatform aliceStore.users (utf8Encode alicePosts) "1 + é = &"
      { id := some (js "alice"), token := some (js "00") } :=
    { body := ⟨js "POST /chat HTTP/1.1\r\nHost: localhost\r\nCookie: user=alice; token=00",
        by decide, htext.trans (by decide)⟩
      served := by decide +kernel
      session := ⟨ctx, htext ▸ hctx, hmethod, hpath, hfound, htoken⟩ }
  exact stored_as_typed hrequest sampleEnv (.inl ⟨rfl, rfl⟩)

end NetworkServers.Phase2
