import NetworkServers.Library.Splitting

/-!
# POSIX Paths

The functions of Node's `path` module for POSIX systems: `join`, with the
normalisation of a path's components, and `extname`. A path without `..` keeps its
components when it is normalised, so joining two such paths joins their components.
-/

namespace NetworkServers.PosixPath

open NetworkServers.Js

/-- The components of a path with `.` and `..` resolved, latest first. A `..` that
leaves the path is kept in a relative path and dropped in an absolute one. -/
def resolve (absolute : Bool) (components : List JsString) : List JsString :=
  components.foldl (fun stack component =>
    if component = [] ∨ component = js "." then stack
    else if component = js ".." then
      match stack with
      | [] => if absolute then [] else [js ".."]
      | top :: rest => if top = js ".." then component :: stack else rest
    else component :: stack) []

/-- `path.normalize`. -/
def normalize (path : JsString) : JsString :=
  if path = [] then js "."
  else
    let absolute := (js "/").isPrefixOf path
    let trailing := (js "/").isSuffixOf path
    let body := (js "/").intercalate (resolve absolute (split (js "/") path)).reverse
    if body = [] then if absolute then js "/" else if trailing then js "./" else js "."
    else (if absolute then js "/" else []) ++ body ++ (if trailing then js "/" else [])

/-- `path.join(first, second)`. -/
def join (first second : JsString) : JsString :=
  normalize ((js "/").intercalate ([first, second].filter (· ≠ [])))

/-- The last component of a path, without trailing slashes and read backwards. -/
def reversedBasename (path : JsString) : JsString :=
  (path.reverse.dropWhile (· = 47)).takeWhile (· ≠ 47)

/-- `path.extname`: from the last dot of the last component on, unless the dot begins
the component or the component is `..`. -/
def extname (path : JsString) : JsString :=
  let base := reversedBasename path
  match base.dropWhile (· ≠ 46) with
  | [] => []
  | [_] => []
  | _ :: _ :: _ =>
    if base = js ".." then [] else (base.takeWhile (· ≠ 46) ++ js ".").reverse

example : join (js "./site/static") (js "/css/../chat.html") = js "site/static/chat.html" := by
  decide

example : extname (js "site/static/chat.html") = js ".html" := by decide

/-! ## Components -/

/-- Whether a part of a path names something. -/
def isName (part : JsString) : Bool := part ≠ [] && part ≠ js "."

/-- The components of a path. -/
def components (path : JsString) : List JsString := (split (js "/") path).filter isName

/-- Whether a path starts at the root. -/
def isAbsolute (path : JsString) : Bool := (js "/").isPrefixOf path

theorem components_append (xs ys : JsString) :
    components (xs ++ 47 :: ys) = components xs ++ components ys := by
  rw [components, show split (js "/") (xs ++ 47 :: ys) = _ from split_append_cons 47 xs ys,
    List.filter_append]
  rfl

theorem components_name {part : JsString} (hname : isName part) (hslash : 47 ∉ part) :
    components part = [part] := by
  have hone : split (js "/") part = [part] := split_of_not_mem (by decide) hslash
  rw [components, hone, List.filter_cons_of_pos hname]
  rfl

/-- Names that are joined are the components of the path. -/
theorem components_intercalate {parts : List JsString}
    (h : ∀ part ∈ parts, isName part ∧ 47 ∉ part) :
    components ((js "/").intercalate parts) = parts := by
  induction parts with
  | nil => rfl
  | cons part parts ih =>
    obtain ⟨⟨hname, hslash⟩, hparts⟩ := List.forall_mem_cons.mp h
    cases parts with
    | nil =>
      rw [List.intercalate_singleton]
      exact components_name hname hslash
    | cons next parts =>
      rw [List.intercalate_cons_cons, List.append_assoc]
      show components (part ++ 47 :: (js "/").intercalate (next :: parts)) = _
      rw [components_append, components_name hname hslash, ih hparts]
      rfl

/-! ## Paths without `..` -/

/-- Whether a path stays below where it starts. -/
def Descends (path : JsString) : Prop := js ".." ∉ split (js "/") path

/-- Other parts than `..` are kept or dropped. -/
theorem resolve_concat (absolute : Bool) (parts : List JsString) {part : JsString}
    (h : part ≠ js "..") : resolve absolute (parts ++ [part]) =
      if isName part then part :: resolve absolute parts else resolve absolute parts := by
  have hname : isName part ↔ ¬(part = [] ∨ part = js ".") := by simp [isName, not_or]
  unfold resolve
  rw [List.foldl_append, List.foldl_cons, List.foldl_nil, if_neg h]
  by_cases hpart : part = [] ∨ part = js "."
  · rw [if_pos hpart, if_neg (not_not_intro hpart ∘ hname.mp)]
  · rw [if_neg hpart, if_pos (hname.mpr hpart)]

/-- Without `..`, only empty parts and `.` are dropped. -/
theorem resolve_of_not_mem (absolute : Bool) {parts : List JsString} (h : js ".." ∉ parts) :
    (resolve absolute parts).reverse = parts.filter isName := by
  induction parts using List.reverseRecOn with
  | nil => rfl
  | append_singleton parts part ih =>
    obtain ⟨hparts, hpart⟩ := not_or.mp (mt List.mem_append.mpr h)
    rw [resolve_concat absolute parts (Ne.symm (mt List.mem_singleton.mpr hpart)),
      List.filter_append, ← ih hparts]
    by_cases hname : isName part
    · rw [if_pos hname, List.filter_cons_of_pos hname, List.reverse_cons]
      rfl
    · rw [if_neg hname, List.filter_cons_of_neg hname]
      exact (List.append_nil _).symm

theorem isName_components (path : JsString) {part : JsString} (h : part ∈ components path) :
    isName part ∧ 47 ∉ part :=
  have hmem := List.mem_filter.mp h
  ⟨hmem.2, not_mem_of_mem_split hmem.1⟩

/-- What normalising makes of a path without `..`. -/
theorem normalize_eq {path : JsString} (h : Descends path) (hne : path ≠ []) :
    normalize path =
      if components path = [] then
        if (js "/").isPrefixOf path then js "/"
        else if (js "/").isSuffixOf path then js "./" else js "."
      else
        (if (js "/").isPrefixOf path then js "/" else []) ++ (js "/").intercalate (components path) ++
          (if (js "/").isSuffixOf path then js "/" else []) := by
  have hbody : (js "/").intercalate (components path) = [] ↔ components path = [] := by
    constructor
    · intro hnil
      rw [← components_intercalate fun _ => isName_components path, hnil]
      rfl
    · intro hnil
      rw [hnil]
      rfl
  unfold normalize
  rw [if_neg hne]
  dsimp only
  rw [resolve_of_not_mem _ h]
  exact ite_congr (propext hbody) (fun _ => rfl) fun _ => rfl

/-- **Normalising** a path without `..` keeps its components. -/
theorem components_normalize {path : JsString} (h : Descends path) :
    components (normalize path) = components path := by
  by_cases hne : path = []
  · rw [hne]
    rfl
  rw [normalize_eq h hne]
  by_cases hnil : components path = []
  · rw [if_pos hnil, hnil]
    split
    · rfl
    split <;> rfl
  · -- the slashes in front and behind add only empty parts, which are no components
    have hbody := components_intercalate fun _ => isName_components path
    have hbefore : ∀ s, components ((if (js "/").isPrefixOf path then js "/" else []) ++ s) =
        components s := by
      intro s
      split
      · exact components_append [] s
      · rfl
    have hafter : ∀ s, components (s ++ if (js "/").isSuffixOf path then js "/" else []) =
        components s := by
      intro s
      split
      · exact (components_append s []).trans (List.append_nil _)
      · rw [List.append_nil]
    rw [if_neg hnil, hafter, hbefore, hbody]

theorem isAbsolute_append {xs : JsString} (hne : xs ≠ []) (ys : JsString) :
    isAbsolute (xs ++ ys) = isAbsolute xs := by
  obtain ⟨c, xs, rfl⟩ := List.exists_cons_of_ne_nil hne
  rfl

theorem not_isAbsolute_components {path : JsString} (hne : components path ≠ []) :
    isAbsolute ((js "/").intercalate (components path)) = false := by
  obtain ⟨part, parts, hparts⟩ := List.exists_cons_of_ne_nil hne
  have hmem : part ∈ components path := by
    rw [hparts]
    exact List.mem_cons_self
  obtain ⟨hname, hslash⟩ := isName_components _ hmem
  obtain ⟨c, part, rfl⟩ := List.exists_cons_of_ne_nil (l := part) (by
    rintro rfl
    exact absurd hname (by decide))
  have hc : (47 == c) = false := by
    rw [beq_eq_false_iff_ne]
    exact fun h => hslash (h ▸ List.mem_cons_self)
  have hhead : ∃ rest, (js "/").intercalate (components path) = c :: rest := by
    rw [hparts]
    cases parts with
    | nil => exact ⟨_, rfl⟩
    | cons next parts => exact ⟨_, List.intercalate_cons_cons⟩
  obtain ⟨rest, hrest⟩ := hhead
  rw [hrest]
  show (47 == c && _) = false
  rw [hc, Bool.false_and]

/-- Normalising keeps where a path starts. -/
theorem isAbsolute_normalize {path : JsString} (h : Descends path) (hne : path ≠ []) :
    isAbsolute (normalize path) = isAbsolute path := by
  have hbody : components path ≠ [] → (js "/").intercalate (components path) ≠ [] := by
    intro hcomponents hnil
    rw [← components_intercalate fun _ => isName_components path, hnil] at hcomponents
    exact hcomponents rfl
  rw [normalize_eq h hne]
  cases habs : (js "/").isPrefixOf path with
  | true =>
    refine Eq.trans ?_ habs.symm
    split <;> rfl
  | false =>
    refine Eq.trans ?_ habs.symm
    rw [if_neg Bool.false_ne_true]
    split
    · split <;> rfl
    · rename_i hcomponents
      rw [if_neg Bool.false_ne_true, List.nil_append, isAbsolute_append (hbody hcomponents)]
      exact not_isAbsolute_components hcomponents

/-- What is joined, before it is normalised. -/
theorem join_eq {first second : JsString} (hfirst : Descends first) (hsecond : Descends second) :
    ∃ path, join first second = normalize path ∧ Descends path ∧
      components path = components first ++ components second ∧
      (first ≠ [] → path ≠ [] ∧ isAbsolute path = isAbsolute first) := by
  cases first with
  | nil =>
    cases second with
    | nil => exact ⟨[], rfl, hfirst, rfl, fun h => absurd rfl h⟩
    | cons d second =>
      exact ⟨d :: second, by simp [join], hsecond, rfl, fun h => absurd rfl h⟩
  | cons c first =>
    cases second with
    | nil =>
      exact ⟨c :: first, by simp [join], hfirst, (List.append_nil _).symm, fun h => ⟨h, rfl⟩⟩
    | cons d second =>
      -- the parts of the joined text are those of both, so `..` is none of them
      have hjoin : join (c :: first) (d :: second) = normalize (c :: first ++ 47 :: d :: second) := by
        simp [join, js, List.intercalate]
      refine ⟨c :: first ++ 47 :: d :: second, hjoin, ?_, components_append _ _, fun h =>
        ⟨List.append_ne_nil_of_left_ne_nil h _, isAbsolute_append h _⟩⟩
      have hsplit : split (js "/") (c :: first ++ 47 :: d :: second) =
          split (js "/") (c :: first) ++ split (js "/") (d :: second) := split_append_cons 47 _ _
      rw [Descends, hsplit, List.mem_append]
      exact not_or.mpr ⟨hfirst, hsecond⟩

/-- **Joining** two paths without `..` joins their components. -/
theorem components_join {first second : JsString} (hfirst : Descends first)
    (hsecond : Descends second) :
    components (join first second) = components first ++ components second := by
  obtain ⟨path, hjoin, hpath, hcomponents, -⟩ := join_eq hfirst hsecond
  rw [hjoin, components_normalize hpath, hcomponents]

theorem isAbsolute_join {first second : JsString} (hfirst : Descends first)
    (hsecond : Descends second) (hne : first ≠ []) :
    isAbsolute (join first second) = isAbsolute first := by
  obtain ⟨path, hjoin, hpath, -, habs⟩ := join_eq hfirst hsecond
  obtain ⟨hpathne, habs⟩ := habs hne
  rw [hjoin, isAbsolute_normalize hpath hpathne, habs]

end NetworkServers.PosixPath
