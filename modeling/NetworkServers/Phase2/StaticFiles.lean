import NetworkServers.Phase2.Router

/-!
# Static Files

The router joins a static directory and the path of a request, which the aliases may have
replaced, and opens what stands there. The only guard is that the path does not include
`".."`, so it has no component that leads upwards; a file that is opened lies below one of
the static directories, and nothing else is looked at.
-/

namespace NetworkServers.Phase2

open NetworkServers.Js NetworkServers.PosixPath

/-! ## Below a directory -/

/-- A path below a directory: it starts where the directory does, and goes on with names. -/
structure Below (dir fp : JsString) : Prop where
  components : ∃ names, components fp = components (normalize dir) ++ names ∧
    ∀ name ∈ names, isName name ∧ 47 ∉ name ∧ name ≠ js ".."
  root : dir ≠ [] → isAbsolute fp = isAbsolute (normalize dir)

/-- A path that does not include `".."` has no such component. -/
theorem descends_of_not_includes {pathname : JsString} (h : includes (js "..") pathname = false) :
    Descends pathname := by
  intro hmem
  have hincludes : includes (js "..") pathname := by
    rw [includes_iff]
    exact infix_of_mem_split hmem
  rw [h] at hincludes
  cases hincludes

/-- **The guard is enough**: joining such a path to a directory leads below it. -/
theorem below_join {dir pathname : JsString} (hdir : Descends dir)
    (h : includes (js "..") pathname = false) : Below dir (join dir pathname) where
  components := by
    have hpathname := descends_of_not_includes h
    refine ⟨components pathname, ?_, fun name hname => ?_⟩
    · rw [components_join hdir hpathname, components_normalize hdir]
    · obtain ⟨hisName, hslash⟩ := isName_components _ hname
      refine ⟨hisName, hslash, fun heq => hpathname ?_⟩
      rw [← heq]
      exact (List.mem_filter.mp hname).1
  root := fun hne => by
    rw [isAbsolute_join hdir (descends_of_not_includes h) hne, isAbsolute_normalize hdir hne]

/-! ## The file that is found -/

section Files

variable {p : Platform} {router : Router} {path : JsString}

/-- The file that is found stands at a static directory joined with the path. -/
theorem findFile_spec {accept : JsString → Bool} {pathname : JsString} {dirs : List JsString}
    {fp : JsString} {content : FileContent}
    (h : findFile p accept pathname dirs = some (fp, content)) :
    p.files fp = some (.file content) ∧ ∃ dir ∈ dirs, fp = join dir pathname := by
  induction dirs with
  | nil => cases h
  | cons dir dirs ih =>
    have hlater : findFile p accept pathname dirs = some (fp, content) →
        p.files fp = some (.file content) ∧ ∃ d ∈ dir :: dirs, fp = join d pathname := by
      intro hrest
      obtain ⟨hfile, d, hd, hfp⟩ := ih hrest
      exact ⟨hfile, d, List.mem_cons_of_mem dir hd, hfp⟩
    unfold findFile at h
    split at h
    · rename_i found hfile
      split at h
      · obtain ⟨rfl, rfl⟩ := Prod.mk.inj (Option.some.inj h)
        exact ⟨hfile, dir, List.mem_cons_self, rfl⟩
      · exact hlater h
    · exact hlater h

/-- **Static files** are streamed and rendered from below the static directories only. -/
theorem static_below (hstatics : ∀ dir ∈ router.statics, Descends dir) (path : JsString) :
    (∀ env s chunks,
      ((router.serveStatic p path).run env s).result = some (.await (.stream chunks)) →
      ∃ fp content, findFile p (fun _ => true) (router.resolve path) router.statics =
          some (fp, content) ∧
        p.files fp = some (.file content) ∧ chunks = content.chunks ∧
        ∃ dir ∈ router.statics, Below dir fp) ∧
    (∀ vars text, router.renderStatic p path vars = some text →
      ∃ fp content, findFile p (fun fp => extname fp = js ".html") (router.resolve path)
          router.statics = some (fp, content) ∧
        p.files fp = some (.file content) ∧
        text = replaceFrom (placeholder (templateVar p vars)) (utf8Decode content.chunks.flatten) 0 ∧
        ∃ dir ∈ router.statics, Below dir fp) := by
  -- both functions look for the file behind the same test for dots
  have hfound : ∀ {accept fp content}, includes (js "..") (router.resolve path) = false →
      findFile p accept (router.resolve path) router.statics = some (fp, content) →
      p.files fp = some (.file content) ∧ ∃ dir ∈ router.statics, Below dir fp := by
    intro accept fp content hguard hfind
    obtain ⟨hfile, dir, hdir, rfl⟩ := findFile_spec hfind
    exact ⟨hfile, dir, hdir, below_join (hstatics dir hdir) hguard⟩
  constructor
  · intro env s chunks hrun
    unfold Router.serveStatic at hrun
    dsimp only at hrun
    split at hrun
    · -- a path with dots is answered at once
      cases hrun
    rename_i hguard
    split at hrun
    · rename_i fp content hfind
      split at hrun
      · cases hrun
      · have hresult : some (Next.await (.stream content.chunks)) = some (.await (.stream chunks)) :=
          hrun
        obtain rfl : content.chunks = chunks := by simpa using hresult
        obtain ⟨hfile, hbelow⟩ := hfound (Bool.eq_false_iff.mpr hguard) hfind
        exact ⟨fp, content, hfind, hfile, rfl, hbelow⟩
    · cases hrun
  · intro vars text hrender
    unfold Router.renderStatic at hrender
    dsimp only at hrender
    split at hrender
    · cases hrender
    rename_i hguard
    obtain ⟨⟨fp, content⟩, hfind, htext⟩ := Option.map_eq_some_iff.mp hrender
    obtain ⟨hfile, hbelow⟩ := hfound (Bool.eq_false_iff.mpr hguard) hfind
    exact ⟨fp, content, hfind, hfile, htext.symm, hbelow⟩

/-- Only the joined paths are looked at. -/
theorem findFile_congr {files : JsString → Option FsNode} {accept : JsString → Bool}
    {pathname : JsString} {dirs : List JsString}
    (h : ∀ dir ∈ dirs, files (join dir pathname) = p.files (join dir pathname)) :
    findFile { p with files := files } accept pathname dirs = findFile p accept pathname dirs := by
  induction dirs with
  | nil => rfl
  | cons dir dirs ih =>
    obtain ⟨hdir, hdirs⟩ := List.forall_mem_cons.mp h
    unfold findFile
    dsimp only
    rw [ih hdirs, hdir]

/-- **Nothing else is looked at**: what stands outside the static directories, and whether
anything stands there, makes no difference. -/
theorem static_congr (hstatics : ∀ dir ∈ router.statics, Descends dir)
    {files : JsString → Option FsNode}
    (h : ∀ dir ∈ router.statics, ∀ fp, Below dir fp → files fp = p.files fp) (path : JsString) :
    router.serveStatic { p with files := files } path = router.serveStatic p path ∧
    ∀ vars, router.renderStatic { p with files := files } path vars =
      router.renderStatic p path vars := by
  have hfind : ∀ accept, includes (js "..") (router.resolve path) = false →
      findFile { p with files := files } accept (router.resolve path) router.statics =
        findFile p accept (router.resolve path) router.statics := by
    intro accept hguard
    apply findFile_congr
    exact fun dir hdir => h dir hdir _ (below_join (hstatics dir hdir) hguard)
  unfold Router.serveStatic Router.renderStatic
  dsimp only
  cases hguard : includes (js "..") (router.resolve path) with
  | true => exact ⟨rfl, fun vars => rfl⟩
  | false =>
    refine ⟨?_, fun vars => ?_⟩
    · rw [hfind _ hguard]
    · rw [hfind _ hguard]
      rfl

end Files

/-! ## The chat page -/

/-- The chat page of the sample platform is streamed from below its directory. -/
theorem static_below_chat : ∃ fp content, samplePlatform.files fp = some (.file content) ∧
    content.chunks = [utf8Encode (js "$\x7bchats\x7d")] ∧ Below (js "./site/static") fp := by
  have hstatics : ∀ dir ∈ [js "./site/static"], Descends dir := by
    intro dir hdir
    rw [List.mem_singleton.mp hdir, Descends]
    decide
  obtain ⟨fp, content, -, hfile, hchunks, dir, hdir, hbelow⟩ :=
    (@static_below samplePlatform { statics := [js "./site/static"] } hstatics
      (js "/chat.html")).1 { now := 0, uuid := sampleUuid } Store.initial _ rfl
  rw [List.mem_singleton.mp hdir] at hbelow
  exact ⟨fp, content, hfile, hchunks.symm, hbelow⟩

end NetworkServers.Phase2
