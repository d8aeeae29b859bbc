import NetworkServers.Library.HttpMessage
import NetworkServers.Phase2.Context

/-!
# Bytes on the Socket

What the calls of a handler write to its socket: `write_headers`, `write_body` and
`end_body` of `src/phase2/src/server/context.ts`, down to the bytes. A body that is
written in chunks comes out of a chunked decoder as it went in.
-/

namespace NetworkServers.Phase2

open NetworkServers.Js NetworkServers.HttpMessage

/-! ## The writers -/

/-- What `new Date().toUTCString()` gives, which is a single line. -/
structure UTCString where
  text : JsString
  ascii : ∀ c ∈ text, c < 128
  oneLine : 13 ∉ text

/-- `socket.write(text + "\r\n")`. -/
def socketLine (text : JsString) : List UInt8 := utf8Encode text ++ crlf

/-- The lines that `write_headers` puts between the status line and the headers of the
handler. -/
def serverLines (date : UTCString) : List JsString :=
  [js "Date: " ++ date.text, js "Connection: Keep-Alive", js "Keep-Alive: timeout=5",
    js "Transfer-Encoding: chunked", js "Server: Node.js Only"]

/-- `` `${key}: ${value}` ``. -/
def headerLine (header : JsString × JsString) : JsString := header.1 ++ js ": " ++ header.2

/-- The bytes that a call writes at a date. -/
def Call.bytes (date : UTCString) : Call → List UInt8
  | .writeHeaders status headers =>
    utf8Encode (js "HTTP/1.1 ") ++ numeral 10 status ++ crlf ++
      (serverLines date).flatMap socketLine ++
      (headers.map headerLine).flatMap socketLine ++ crlf
  -- `chunk.length.toString(16)` in front of the chunk
  | .writeBody data => numeral 16 data.length ++ crlf ++ data ++ crlf
  | .endBody => utf8Encode (js "0") ++ crlf ++ crlf

/-! ## Bodies -/

/-- `write_body` writes a chunk of the chunked coding. -/
theorem bytes_writeBody (date : UTCString) (data : List UInt8) :
    (Call.writeBody data).bytes date = chunkBytes data := rfl

/-- `end_body` writes the last chunk. -/
theorem bytes_endBody (date : UTCString) : Call.endBody.bytes date = lastChunk := rfl

/-- **A body reads back**: a chunked decoder gets the chunks that `write_body` was
called with, none of them empty, and stops behind the bytes of `end_body`. -/
theorem decodeChunked_body (date : UTCString) {chunks : List (List UInt8)}
    (hchunks : ∀ data ∈ chunks, data ≠ []) (extra : List UInt8) :
    decodeChunked ((chunks.map Call.writeBody ++ [Call.endBody]).flatMap (Call.bytes date) ++ extra) =
      some (chunks.flatten, extra) := by
  rw [List.flatMap_append, List.flatMap_map, List.flatMap_singleton, bytes_endBody]
  simp only [bytes_writeBody]
  exact decodeChunked_flatMap hchunks extra

/-- A date for examples. -/
def sampleDate : UTCString where
  text := js "Mon, 01 Jan 2024" ++ js " 00:00:00 GMT"
  ascii := List.all_iff_forall_prop.mp (by decide)
  oneLine := by decide

/-- Two chunks that look like lines of the coding, and a next response behind them. -/
theorem decodeChunked_body_lines :
    decodeChunked (([utf8Encode (js "0\r\n\r\n"), utf8Encode (js "ff\r\n")].map Call.writeBody ++
        [Call.endBody]).flatMap (Call.bytes sampleDate) ++ utf8Encode (js "HTTP/1.1 200\r\n")) =
      some (utf8Encode (js "0\r\n\r\nff\r\n"), utf8Encode (js "HTTP/1.1 200\r\n")) :=
  decodeChunked_body sampleDate (List.all_iff_forall_prop.mp (by decide)) _

end NetworkServers.Phase2
