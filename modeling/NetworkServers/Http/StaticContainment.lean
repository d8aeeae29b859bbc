import NetworkServers.Http.Middlewares
import NetworkServers.Http.RequestNormalForm
import NetworkServers.Library.Splitting

/-!
# What the Static Handler Opens

The static handler glues the path of the request to the name of its directory, and refuses
what then holds `..`. A path need not begin with a slash: `request_parse` takes any word for
one. Behind a slash the guard is enough, and without one the handler opens something that
only begins with the name of the directory.
-/

namespace NetworkServers.Http

open NetworkServers.CString NetworkServers.Machine

/-! ## The paths that are produced -/

/-- A request with a word as its path. -/
def askFor {path : List UInt8} (h : IsWord path) : RequestHead :=
  { oneHeader with path := path, path_ne := h.1, path_clean := h.2 }

/-- The paths of all requests that `request_parse` returns are the words. -/
theorem path_produced_iff {path : List UInt8} :
    (∃ buffer request, requestParse buffer = .ok request ∧ request.path = path) ↔
      IsWord path := by
  constructor
  · rintro ⟨buffer, request, hparse, rfl⟩
    exact (normalForm_of_requestParse hparse).path
  · intro h
    have hfits : (askFor h).text.length < (askFor h).text.length + 1 := Nat.lt_succ_self _
    exact ⟨_, _, (askFor h).requestParse_text (List.cons_ne_nil _ _) hfits, rfl⟩

/-! ## The path that is opened -/

section Opens

variable {request : Request} {path : List UInt8}

/-- The handler hands a path to `fopen`: what it does depends on the file there. -/
def Opens (request : Request) (path : List UInt8) : Prop :=
  ∃ fopen fopen' response, (∀ other, other ≠ path → fopen other = fopen' other) ∧
    middlewareStaticHandler fopen request response ≠
      middlewareStaticHandler fopen' request response

/-- The handler opens one path, and only behind its guard. -/
theorem opens_iff : Opens request path ↔
    path = bytes "public" ++ staticPath request ∧ ¬bytes ".." <:+: path := by
  constructor
  · rintro ⟨fopen, fopen', response, hagree, hdiffer⟩
    have hpath : path = bytes "public" ++ staticPath request := by
      by_contra hne
      apply hdiffer
      simp only [middlewareStaticHandler, hagree _ (Ne.symm hne)]
    refine ⟨hpath, fun hdots => hdiffer ?_⟩
    rw [hpath] at hdots
    simp only [middlewareStaticHandler, if_pos hdots]
  · rintro ⟨rfl, hguard⟩
    -- a world without files, and one with an empty file at this path
    refine ⟨fun _ => none, fun other => if other = bytes "public" ++ staticPath request then some []
      else none, Answer.create, fun other hne => (if_neg hne).symm, ?_⟩
    simp only [middlewareStaticHandler, if_neg hguard, if_true]
    cases strrchr (staticPath request) 46 with
    | none => nofun
    | some ext =>
      intro heq
      -- only one of the two answers has a stream
      cases congrArg (fun answer => answer.2.bodyStream) (Except.ok.inj heq)

/-- What is opened lies below `public`: a slash follows the name, and no component behind it
leads upwards. -/
def Contained (request : Request) : Prop :=
  ∀ path, Opens request path → ∃ rest, path = bytes "public/" ++ rest ∧
    bytes ".." ∉ Js.split (bytes "/") rest

/-- The name of the directory does not hold the dots. -/
theorem dots_public_iff : bytes ".." <:+: bytes "public" ++ path ↔ bytes ".." <:+: path :=
  Js.infix_append_iff (by decide)

/-- A path with a slash in front is contained by the guard. -/
theorem contained_of_slash {rest : List UInt8} (h : staticPath request = bytes "/" ++ rest) :
    Contained request := by
  intro path hopens
  obtain ⟨rfl, hguard⟩ := opens_iff.mp hopens
  rw [h]
  refine ⟨rest, by simp [bytes], fun hmem => hguard ?_⟩
  have hdots : bytes ".." <:+: rest := Js.infix_of_mem_split hmem
  rw [dots_public_iff, h]
  exact hdots.trans (List.suffix_append _ _).isInfix

/-- **Static containment**: what the handler opens for a request lies below `public` if and
only if its path begins with a slash, or is refused because of its dots. -/
theorem contained_iff (request : Request) :
    Contained request ↔ request.path.head? = some 47 ∨ bytes ".." <:+: request.path := by
  by_cases hroot : request.path = bytes "/"
  · -- the page of the root directory
    have hstatic : staticPath request = bytes "/" ++ bytes "index.html" := if_pos hroot
    refine iff_of_true (contained_of_slash hstatic) (.inl ?_)
    rw [hroot]
    rfl
  · have hstatic : staticPath request = request.path := if_neg hroot
    constructor
    · intro hcontained
      by_cases hdots : bytes ".." <:+: request.path
      · exact .inr hdots
      · left
        have hopens : Opens request (bytes "public" ++ request.path) := by
          rw [opens_iff, hstatic, dots_public_iff]
          exact ⟨rfl, hdots⟩
        obtain ⟨rest, hrest, -⟩ := hcontained _ hopens
        have hglued : bytes "public" ++ request.path = bytes "public" ++ (bytes "/" ++ rest) := hrest
        rw [List.append_cancel_left hglued]
        rfl
    · rintro (hslash | hdots)
      · obtain ⟨rest, hpath⟩ := List.head?_eq_some_iff.mp hslash
        exact contained_of_slash (hstatic.trans hpath)
      · intro path hopens
        obtain ⟨rfl, hguard⟩ := opens_iff.mp hopens
        rw [hstatic, dots_public_iff] at hguard
        exact absurd hdots hguard

end Opens

/-- A request that asks for a file beside the directory. -/
def besideRequest : Request where
  method := bytes "GET"
  path := bytes "-old/config.txt"
  headers := { fields := [{ name := bytes "host", value := bytes "a" }] }
  body := []

/-- It is produced, and the handler opens a file of another directory for it. -/
theorem not_contained_beside :
    requestParse (receiveBuffer 64 (bytes "GET -old/config.txt HTTP/1.1\r\nHost: a\r\n\r\n")) =
      .ok besideRequest ∧
    Opens besideRequest (bytes "public-old/config.txt") ∧ ¬Contained besideRequest := by
  have hopens : Opens besideRequest (bytes "public-old/config.txt") := by
    rw [opens_iff, ← Js.includes_iff]
    decide
  refine ⟨by decide +kernel, hopens, fun hcontained => ?_⟩
  obtain ⟨rest, hrest, -⟩ := hcontained _ hopens
  -- the byte behind the name of the directory is a hyphen
  cases congrArg (fun path => path[6]?) hrest

end NetworkServers.Http
