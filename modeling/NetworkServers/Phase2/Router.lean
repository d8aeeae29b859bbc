import NetworkServers.Library.PosixPath
import NetworkServers.Phase2.Handler

/-!
# The Router

Translation of `src/phase2/src/server/router.ts`. A route handler is named by a `Route`;
what it does is defined in `Handlers`.
-/

namespace NetworkServers.Phase2

open NetworkServers.Js

/-- The handlers that routes can be overridden with. -/
inductive Route where
  | reflect
  | computeSqrt
  | register
  | login
  | logout
  | chatroom
  | chatStatus
deriving DecidableEq, Repr

/-- `Router`. -/
structure Router where
  statics : List JsString := []
  aliases : Dict JsString JsString := Dict.empty
  overrides : Dict JsString Route := Dict.empty

/-- `router.serve(path)`, `none` where it throws. -/
def Router.serve (p : Platform) (router : Router) (path : JsString) : Option Router :=
  match p.files path with
  | some .directory => some { router with statics := router.statics ++ [path] }
  | _ => none

/-- `router.alias(path, target)`. -/
def Router.alias (router : Router) (path target : JsString) : Router :=
  { router with aliases := router.aliases.set path target }

/-- `router.override(path, handler)`. -/
def Router.override (router : Router) (path : JsString) (handler : Route) : Router :=
  { router with overrides := router.overrides.set path handler }

/-- `this.aliases.get(p) ?? p`. -/
def Router.resolve (router : Router) (path : JsString) : JsString :=
  (router.aliases.get? path).getD path

/-! ## render_static -/

/-- A character that `\w` matches. -/
def isWordChar (c : UInt16) : Bool :=
  (48 ≤ c ∧ c ≤ 57) ∨ (65 ≤ c ∧ c ≤ 90) ∨ c = 95 ∨ (97 ≤ c ∧ c ≤ 122)

/-- A match of `/\$\{(\w+)\}/` at the start of a string, for `replaceFrom`. -/
def placeholder (vars : JsString → JsString) (s : JsString) : Option (ℕ × JsString) :=
  if (js "$\x7b").isPrefixOf s then
    let name := (s.drop 2).takeWhile isWordChar
    if name ≠ [] ∧ (s.drop (2 + name.length)).head? = some 125 then
      some (name.length + 2, vars name)
    else none
  else none

/-- `vars[name] ?? ""` for an object literal with the given fields. -/
def templateVar (p : Platform) (vars : Dict JsString JsString) (name : JsString) : JsString :=
  match property vars name with
  | .own value => value
  | .inherited => p.inheritedText name
  | .missing => []

/-- The first file of the static directories with a path that is accepted. -/
def findFile (p : Platform) (accept : JsString → Bool) (pathname : JsString) :
    List JsString → Option (JsString × FileContent)
  | [] => none
  | dir :: dirs =>
    match p.files (PosixPath.join dir pathname) with
    | some (.file content) =>
      if accept (PosixPath.join dir pathname) then some (PosixPath.join dir pathname, content)
      else findFile p accept pathname dirs
    | _ => findFile p accept pathname dirs

/-- `router.render_static(p, vars)`. -/
def Router.renderStatic (p : Platform) (router : Router) (path : JsString)
    (vars : Dict JsString JsString) : Option JsString :=
  let pathname := router.resolve path
  if includes (js "..") pathname then none
  else
    (findFile p (fun fp => PosixPath.extname fp = js ".html") pathname router.statics).map
      fun (_, content) =>
        replaceFrom (placeholder (templateVar p vars)) (utf8Decode content.chunks.flatten) 0

/-! ## serve_static -/

/-- The content type for an extension, empty if there is none. -/
def contentType (extension : JsString) : JsString :=
  if extension = js ".html" then js "text/html"
  else if extension = js ".css" then js "text/css"
  else if extension = js ".js" then js "text/javascript"
  else if extension = js ".png" then js "image/png"
  else if extension = js ".jpg" then js "image/jpeg"
  else if extension = js ".gif" then js "image/gif"
  else if extension = js ".ico" then js "image/x-icon"
  else if extension = js ".svg" then js "image/svg+xml"
  else if extension = js ".json" then js "application/json"
  else if extension = js ".mp4" then js "video/mp4"
  else if extension = js ".mp3" then js "audio/mpeg"
  else []

/-- `router.serve_static(p, ctx)`, up to the first chunk of the file. -/
def Router.serveStatic (p : Platform) (router : Router) (path : JsString) : Prog Next := do
  let pathname := router.resolve path
  -- prevent directory traversal
  if includes (js "..") pathname then
    writeHeaders 403 [(js "Content-Type", js "text/plain")]
    writeText (js "Forbidden")
    endBody
    return .done
  else
    match findFile p (fun _ => true) pathname router.statics with
    | some (fp, content) =>
      if contentType (PosixPath.extname fp) = [] then
        writeHeaders 415 [(js "Content-Type", js "text/plain")]
        writeText (js "Unsupported Media Type")
        endBody
        return .done
      else
        writeHeaders 200 [(js "Content-Type", contentType (PosixPath.extname fp))]
        return .await (.stream content.chunks)
    | none => notFound

/-- The rest of `serve_static` after the next chunk, or the end, of the file. -/
def streamNext : List (List UInt8) → Prog Next
  | [] => do
    endBody
    return .done
  | chunk :: chunks => do
    writeBody chunk
    return .await (.stream chunks)

end NetworkServers.Phase2
