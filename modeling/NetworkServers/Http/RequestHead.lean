import NetworkServers.Http.Request
import NetworkServers.Library.Tokens

/-!
# Head and Body of a Request

What `request_parse` makes of a start line, any number of header lines, an empty line
and a body. The empty line is looked for only behind a header, so head and body are told
apart if and only if there is a header. With one, the induction over the header lines
shows that the hand-kept offset stays on the start of a line, although every `strtok` on
the way cuts the buffer.
-/

namespace NetworkServers.Http

open NetworkServers.CString NetworkServers.Machine

/-! ## Requests as texts -/

/-- A header line. Behind the colon stands the value, with or without a space in front of
it. -/
structure HeadLine where
  name : List UInt8
  rest : List UInt8
  name_ne : name ≠ []
  name_clean : ∀ c ∈ name, c ∉ [0, 10, 13, 32, 58]
  rest_ne : rest ≠ []
  rest_clean : ∀ c ∈ rest, c ∉ [0, 10, 13]

namespace HeadLine

def text (line : HeadLine) : List UInt8 := line.name ++ 58 :: line.rest

/-- The value without the space. -/
def value (line : HeadLine) : List UInt8 :=
  if line.rest.head? = some 32 then line.rest.tail else line.rest

/-- The field that `headers_set` stores. -/
def stored (line : HeadLine) : Header :=
  { name := line.name.map tolower, value := line.value }

end HeadLine

/-- A request: the start line holds a method, a path and possibly more, and the body is
any text without NUL. -/
structure RequestHead where
  method : List UInt8
  path : List UInt8
  more : List UInt8
  lines : List HeadLine
  body : List UInt8
  method_ne : method ≠ []
  method_clean : ∀ c ∈ method, c ∉ [0, 10, 13, 32]
  path_ne : path ≠ []
  path_clean : ∀ c ∈ path, c ∉ [0, 10, 13, 32]
  more_space : ∀ c ∈ more.head?, c = 32
  more_clean : ∀ c ∈ more, c ∉ [0, 10, 13]
  body_clean : ∀ c ∈ body, c ≠ 0

namespace RequestHead

/-- The text of the header lines. -/
def headers (lines : List HeadLine) : List UInt8 :=
  lines.flatMap fun line => line.text ++ bytes "\r\n"

/-- The text of the request. -/
def text (r : RequestHead) : List UInt8 :=
  r.method ++ bytes " " ++ r.path ++ r.more ++ bytes "\r\n" ++ headers r.lines ++ bytes "\r\n" ++
    r.body

end RequestHead

theorem bytes_space : bytes " " = [32] := rfl

theorem bytes_crlf : bytes "\r\n" = [13, 10] := rfl

theorem bytes_colon_space : bytes ": " = [58, 32] := rfl

/-! ## The start line -/

section StartLine

variable {method path more : List UInt8}

/-- The start line is cut into its words, and the offset is the one behind its CRLF. -/
theorem parseStartLine_words (hmethod : method ≠ []) (hpath : path ≠ [])
    (hmethodClean : ∀ c ∈ method, c ∉ [0, 10, 13, 32]) (hpathClean : ∀ c ∈ path, c ∉ [0, 10, 13, 32])
    (hmore : ∀ c ∈ more.head?, c = 32) (hmoreClean : ∀ c ∈ more, c ∉ [0, 10, 13])
    (tail : List UInt8) :
    ∃ pre saved, parseStartLine
        { mem := method ++ 32 :: path ++ more ++ 13 :: 10 :: tail, saved := none } =
      .ok (method, path, pre.length, { mem := pre ++ tail, saved := saved }) := by
  have hline : ∀ c ∈ method ++ 32 :: path ++ more, c ≠ 0 ∧ c ∉ bytes "\r\n" := by
    intro c hc
    simp only [List.mem_append, List.mem_cons] at hc
    have h1 := hmethodClean c
    have h2 := hpathClean c
    have h3 := hmoreClean c
    simp only [bytes_crlf, List.mem_cons, List.not_mem_nil, or_false] at h1 h2 h3 ⊢
    grind
  have hword : ∀ word : List UInt8, (∀ c ∈ word, c ∉ [0, 10, 13, 32]) →
      ∀ c ∈ word, c ≠ 0 ∧ c ∉ bytes " " := by
    intro word hclean c hc
    have := hclean c hc
    simp only [bytes_space, List.mem_cons, List.not_mem_nil, or_false] at this ⊢
    grind
  -- the line
  have h1 := strtok_append (bytes "\r\n")
    { mem := method ++ 32 :: path ++ more ++ 13 :: 10 :: tail, saved := none }
    [] (method ++ 32 :: path ++ more) (10 :: tail) (d := 13) (s := some 0)
    rfl rfl (by simp) hline (by simp [bytes_crlf]) (by simp)
  have hread : readString ([] ++ (method ++ 32 :: path ++ more) ++ 0 :: 10 :: tail)
      (some ([] : List UInt8).length) = .ok (method ++ 32 :: path ++ more) :=
    readString_append _ _ _ fun c hc => (hline c hc).1
  -- the method
  have h2 := strtok_append (bytes " ")
    { mem := [] ++ (method ++ 32 :: path ++ more) ++ 0 :: 10 :: tail
      saved := some (([] : List UInt8).length + (method ++ 32 :: path ++ more).length + 1) }
    [] method (path ++ more ++ 0 :: 10 :: tail) (d := 32)
    (s := some ([] : List UInt8).length) (by simp) rfl hmethod (hword _ hmethodClean)
    (by simp [bytes_space]) (by simp)
  -- the path, and whatever follows it up to the end of the line
  obtain ⟨mem', saved, token, mid', saved', hlength, h3, h4⟩ :
      ∃ mem' saved token mid' saved', mid'.length = more.length ∧
        strtok none (bytes " ") { mem := [] ++ method ++ 0 :: (path ++ more ++ 0 :: 10 :: tail)
                                  saved := some (([] : List UInt8).length + method.length + 1) } =
          .ok (some (method ++ [0]).length, { mem := mem', saved := some saved }) ∧
        strtok none (bytes " ") { mem := mem', saved := some saved } =
          .ok (token, { mem := method ++ [0] ++ path ++ 0 :: (mid' ++ 10 :: tail)
                        saved := saved' }) := by
    cases more with
    | nil =>
      -- the line ends with the path
      have h3 := strtok_append_nul (bytes " ")
        { mem := [] ++ method ++ 0 :: (path ++ [] ++ 0 :: 10 :: tail)
          saved := some (([] : List UInt8).length + method.length + 1) }
        (method ++ [0]) path (10 :: tail) (s := none) (by simp) (by simp) hpath
        (hword _ hpathClean)
      have h4 := strtok_nul (bytes " ")
        { mem := [] ++ method ++ 0 :: (path ++ [] ++ 0 :: 10 :: tail)
          saved := some ((method ++ [0]).length + path.length) }
        (method ++ [0] ++ path) (10 :: tail) (s := none) (by simp) (by simp; omega)
        (by simp [bytes_space])
      refine ⟨_, _, none, [], some (method ++ [0] ++ path).length, rfl, h3, h4.trans ?_⟩
      simp
    | cons space more =>
      obtain rfl : space = 32 := hmore space rfl
      have h3 := strtok_append (bytes " ")
        { mem := [] ++ method ++ 0 :: (path ++ 32 :: more ++ 0 :: 10 :: tail)
          saved := some (([] : List UInt8).length + method.length + 1) }
        (method ++ [0]) path (more ++ 0 :: 10 :: tail) (d := 32) (s := none) (by simp) (by simp)
        hpath (hword _ hpathClean) (by simp [bytes_space]) (by simp)
      obtain ⟨token, mid', saved', hlength, h4⟩ := strtok_piece (bytes " ")
        { mem := method ++ [0] ++ path ++ 0 :: (more ++ 0 :: 10 :: tail)
          saved := some ((method ++ [0]).length + path.length + 1) }
        (method ++ [0] ++ path ++ [0]) more (10 :: tail) (s := none) (by simp) (by simp; omega)
        (by simp [bytes_space])
      refine ⟨_, _, token, mid', saved', hlength, h3, h4.trans ?_⟩
      simp
  have hreadMethod : readString (method ++ [0] ++ path ++ 0 :: (mid' ++ 10 :: tail))
      (some ([] : List UInt8).length) = .ok method := by
    have := readString_append [] method (path ++ 0 :: (mid' ++ 10 :: tail))
      fun c hc => (hword _ hmethodClean c hc).1
    simpa using this
  have hreadPath : readString (method ++ [0] ++ path ++ 0 :: (mid' ++ 10 :: tail))
      (some (method ++ [0]).length) = .ok path :=
    readString_append _ _ _ fun c hc => (hword _ hpathClean c hc).1
  refine ⟨method ++ [0] ++ path ++ 0 :: mid' ++ [10], saved', ?_⟩
  simp only [parseStartLine, h1, ok_bind, hread, h2, h3, h4, hreadMethod, hreadPath]
  simp [pure, Except.pure]
  omega

end StartLine

/-! ## One header -/

namespace HeadLine

variable (line : HeadLine)

theorem name_delim : ∀ c ∈ line.name, c ≠ 0 ∧ c ∉ bytes ": " := by
  intro c hc
  have := line.name_clean c hc
  simp only [bytes_colon_space, List.mem_cons, List.not_mem_nil, or_false] at this ⊢
  grind

theorem rest_nul : ∀ c ∈ line.rest, c ≠ 0 ∧ c ∉ ([] : List UInt8) := by
  intro c hc
  have := line.rest_clean c hc
  simp only [List.mem_cons, List.not_mem_nil, or_false] at this ⊢
  grind

theorem text_clean : ∀ c ∈ line.text, c ≠ 0 ∧ c ∉ bytes "\r\n" := by
  intro c hc
  simp only [text, List.mem_append, List.mem_cons] at hc
  have h1 := line.name_clean c
  have h2 := line.rest_clean c
  simp only [bytes_crlf, List.mem_cons, List.not_mem_nil, or_false] at h1 h2 ⊢
  grind

theorem text_ne : line.text ≠ [] := by simp [text]

/-- The value is read behind the colon, or one byte further where there is a space. -/
theorem readString_value (pre after : List UInt8) :
    ∃ first, readByte (pre ++ line.rest ++ 0 :: after) (some pre.length) = .ok first ∧
      readString (pre ++ line.rest ++ 0 :: after)
        (if first = 32 then (some pre.length).map (· + 1) else some pre.length) =
          .ok line.value := by
  obtain ⟨first, rest, hrest⟩ := List.exists_cons_of_ne_nil line.rest_ne
  have hclean := line.rest_nul
  refine ⟨first, ?_, ?_⟩
  · have := readByte_append pre (rest ++ 0 :: after) (d := first)
    simpa [hrest] using this
  · rw [value, hrest]
    rw [hrest] at hclean
    by_cases hspace : first = 32
    · have := readString_append (pre ++ [first]) rest after
        fun c hc => (hclean c (List.mem_cons_of_mem _ hc)).1
      simpa [hspace] using this
    · rw [if_neg hspace, if_neg (by simpa using hspace)]
      exact readString_append pre (first :: rest) after fun c hc => (hclean c hc).1

end HeadLine

/-- The body of the header loop on a line whose CRLF the line's `strtok` has cut: the
table grows by the field, and only the bytes behind the line are left to look at. -/
theorem parseHeader_line (pre after : List UInt8) (line : HeadLine) (headers : Headers)
    (saved : Option ℕ) :
    ∃ cut saved', cut.length = (pre ++ line.text).length + 2 ∧
      parseHeader pre.length cut.length headers
          { mem := pre ++ line.text ++ 0 :: 10 :: after, saved := saved } =
        (startsWithCrlf (cut ++ after) cut.length >>= fun blank =>
          .ok (!blank, if blank then cut.length + 2 else cut.length,
            { fields := headers.fields ++ [line.stored] },
            { mem := cut ++ after, saved := saved' })) := by
  -- the name is cut at its colon
  have h1 := strtok_append (bytes ": ")
    { mem := pre ++ line.text ++ 0 :: 10 :: after, saved := saved }
    pre line.name (line.rest ++ 0 :: 10 :: after) (d := 58) (s := some pre.length)
    (by simp [HeadLine.text]) rfl line.name_ne line.name_delim (by simp [bytes_colon_space])
    (by decide)
  -- what is behind it is the value, possibly with a space in front
  have h2 := strtok_append_nul []
    { mem := pre ++ line.name ++ 0 :: (line.rest ++ 0 :: 10 :: after)
      saved := some (pre.length + line.name.length + 1) }
    (pre ++ line.name ++ [0]) line.rest (10 :: after) (s := none) (by simp) (by simp; omega)
    line.rest_ne line.rest_nul
  obtain ⟨first, hfirst, hvalue⟩ := line.readString_value (pre ++ line.name ++ [0]) (10 :: after)
  have hshape : pre ++ line.name ++ [0] ++ line.rest ++ 0 :: 10 :: after =
      pre ++ line.name ++ 0 :: (line.rest ++ 0 :: 10 :: after) := by simp
  rw [hshape] at hfirst hvalue
  have hreadName : readString (pre ++ line.name ++ 0 :: (line.rest ++ 0 :: 10 :: after))
      (some pre.length) = .ok line.name :=
    readString_append _ _ _ fun c hc => (line.name_delim c hc).1
  have hcut : pre ++ line.name ++ 0 :: (line.rest ++ 0 :: 10 :: after) =
      pre ++ line.name ++ 0 :: line.rest ++ [0, 10] ++ after := by simp
  refine ⟨pre ++ line.name ++ 0 :: line.rest ++ [0, 10],
    some ((pre ++ line.name ++ [0]).length + line.rest.length), by simp [HeadLine.text]; omega, ?_⟩
  simp only [parseHeader, h1, ok_bind, h2, hfirst, hvalue, hreadName, Functor.map, Except.map]
  rw [hcut]
  rfl

theorem startsWithCrlf_blank {pre rest : List UInt8} :
    startsWithCrlf (pre ++ 13 :: 10 :: rest) pre.length = .ok true := by
  have h := readByte_append (pre ++ [13]) rest (d := 10)
  simp only [List.append_assoc, List.cons_append, List.nil_append, List.length_append,
    List.length_cons, List.length_nil, Nat.zero_add] at h
  simp only [startsWithCrlf, readByte_append, ok_bind, if_true, h]
  rfl

theorem startsWithCrlf_line {pre rest : List UInt8} {c : UInt8} (hc : c ≠ 13) :
    startsWithCrlf (pre ++ c :: rest) pre.length = .ok false := by
  simp only [startsWithCrlf, readByte_append, ok_bind, if_neg hc]
  rfl

/-! ## The header loop -/

/-- **The header loop**: the loop reads all header lines and ends behind the empty line.
By induction over the lines; the offset of every iteration is the length of what has been
read. -/
theorem parseHeaders_lines (tail : List UInt8) (lines : List HeadLine) (hne : lines ≠ []) :
    ∀ (fuel : ℕ) (pre : List UInt8) (headers : Headers) (saved : Option ℕ),
      lines.length ≤ fuel → ∃ pre' saved',
        parseHeaders fuel pre.length headers
            { mem := pre ++ RequestHead.headers lines ++ 13 :: 10 :: tail, saved := saved } =
          .ok (pre'.length, { fields := headers.fields ++ lines.map HeadLine.stored },
            { mem := pre' ++ tail, saved := saved' }) := by
  induction lines with
  | nil => exact absurd rfl hne
  | cons line lines ih =>
    intro fuel pre headers saved hfuel
    obtain ⟨fuel, rfl⟩ : ∃ n, fuel = n + 1 := ⟨fuel - 1, by simp at hfuel; omega⟩
    have hmem : pre ++ RequestHead.headers (line :: lines) ++ 13 :: 10 :: tail =
        pre ++ line.text ++ 13 :: 10 :: (RequestHead.headers lines ++ 13 :: 10 :: tail) := by
      simp [RequestHead.headers, bytes_crlf]
    -- the line is cut, and its length is the text in front of the CRLF
    have hstrtok := strtok_append (bytes "\r\n")
      { mem := pre ++ line.text ++ 13 :: 10 :: (RequestHead.headers lines ++ 13 :: 10 :: tail)
        saved := saved }
      _ _ _ (s := some pre.length) rfl rfl line.text_ne line.text_clean (by simp [bytes_crlf])
      (by decide)
    have hread := readString_append pre _ (10 :: (RequestHead.headers lines ++ 13 :: 10 :: tail))
      fun c hc => (line.text_clean c hc).1
    obtain ⟨cut, saved', hcut, hparse⟩ := parseHeader_line pre
      (RequestHead.headers lines ++ 13 :: 10 :: tail) line headers
      (some (pre.length + line.text.length + 1))
    have hoffset : pre.length + line.text.length + 2 = cut.length := by
      rw [hcut, List.length_append]
    simp only [parseHeaders, hmem, hstrtok, ok_bind, hread, hoffset, hparse]
    rw [if_neg (List.length_eq_zero_iff.not.mpr line.text_ne)]
    cases lines with
    | nil =>
      -- the empty line follows
      refine ⟨cut ++ [13, 10], saved', ?_⟩
      simp only [RequestHead.headers, List.flatMap_nil, List.nil_append, startsWithCrlf_blank,
        ok_bind, if_true, Bool.not_true, Bool.false_eq_true, if_false]
      simp [pure, Except.pure]
    | cons line' lines =>
      -- another line follows, and it does not start with a CR
      obtain ⟨c, name, hname⟩ := List.exists_cons_of_ne_nil line'.name_ne
      have hc : c ≠ 13 := by
        have := line'.name_clean c (by simp [hname])
        simp only [List.mem_cons, List.not_mem_nil, or_false] at this
        grind
      have hblank : startsWithCrlf (cut ++ (RequestHead.headers (line' :: lines) ++
          13 :: 10 :: tail)) cut.length = .ok false := by
        simp only [RequestHead.headers, List.flatMap_cons, HeadLine.text, hname, List.cons_append]
        exact startsWithCrlf_line hc
      simp only [hblank, ok_bind, Bool.not_false, if_true, Bool.false_eq_true, if_false]
      obtain ⟨pre', saved'', hloop⟩ := ih (by simp) fuel cut
        { fields := headers.fields ++ [line.stored] } saved' (by simpa using hfuel)
      refine ⟨pre', saved'', ?_⟩
      rw [← List.append_assoc, hloop]
      simp

/-- The last `strtok` finds the body, or nothing where the body is empty. -/
theorem strtok_body (pre rest : List UInt8) {body : List UInt8} (saved : Option ℕ)
    (hbody : ∀ c ∈ body, c ≠ 0) :
    ∃ p st, strtok (some pre.length) []
        { mem := pre ++ (body ++ 0 :: rest), saved := saved } = .ok (p, st) ∧
      (p = none ∧ body = [] ∨ p.isSome ∧ readString st.mem p = .ok body) := by
  by_cases hne : body = []
  · subst hne
    exact ⟨_, _, strtok_nul _ _ _ _ (by simp; rfl) rfl (by simp), .inl ⟨rfl, rfl⟩⟩
  · refine ⟨_, _, strtok_append_nul _ _ pre _ rest (by simp) rfl hne
      fun c hc => ⟨hbody c hc, by simp⟩, .inr ⟨rfl, ?_⟩⟩
    rw [← List.append_assoc]
    exact readString_append _ _ _ hbody

/-- The body of the loop stores one field. -/
theorem parseHeader_stores {line offset offset' : ℕ} {headers headers' : Headers} {goOn : Bool}
    {st st' : CState} (h : parseHeader line offset headers st = .ok (goOn, offset', headers', st')) :
    headers'.fields.length = headers.fields.length + 1 := by
  obtain ⟨⟨name, _⟩, -, h⟩ := bind_eq_ok.mp h
  obtain ⟨⟨value, _⟩, -, h⟩ := bind_eq_ok.mp h
  obtain ⟨first, -, h⟩ := bind_eq_ok.mp h
  obtain ⟨text, -, h⟩ := bind_eq_ok.mp h
  dsimp only at h
  split at h
  all_goals
    obtain ⟨stored, -, h⟩ := bind_eq_ok.mp h
    obtain ⟨blank, -, h⟩ := bind_eq_ok.mp h
    cases h
    simp [headersSet]

/-- What an iteration of the loop does: no line is found, or one that is not empty is parsed,
and the loop goes on behind it or ends there. -/
theorem parseHeaders_cases {fuel offset offset' : ℕ} {headers headers' : Headers} {st st' : CState}
    (h : parseHeaders (fuel + 1) offset headers st = .ok (offset', headers', st')) :
    (headers' = headers ∧ offset' = offset ∧ st'.mem = st.mem) ∨
    ∃ line behind goOn offset1 headers1 st1 st2,
      strtok (some offset) (bytes "\r\n") st = .ok (some line, st1) ∧
      parseHeader line behind headers st1 = .ok (goOn, offset1, headers1, st2) ∧
      (parseHeaders fuel offset1 headers1 st2 = .ok (offset', headers', st') ∨
        (offset1 = offset' ∧ headers1 = headers' ∧ st2 = st')) := by
  unfold parseHeaders at h
  obtain ⟨⟨line, st1⟩, htok, h⟩ := bind_eq_ok.mp h
  cases line with
  | none =>
    cases h
    obtain ⟨_, -, -, rfl⟩ := strtok_eq_none htok
    exact .inl ⟨rfl, rfl, rfl⟩
  | some line =>
    obtain ⟨text, hread, h⟩ := bind_eq_ok.mp h
    have hne := readString_token htok hread
    dsimp only at h
    rw [if_neg (List.length_eq_zero_iff.not.mpr hne)] at h
    obtain ⟨⟨goOn, offset1, headers1, st2⟩, hheader, h⟩ := bind_eq_ok.mp h
    refine .inr ⟨line, _, goOn, offset1, headers1, st1, st2, htok, hheader, ?_⟩
    dsimp only at h
    split at h
    · exact .inl h
    · cases h
      exact .inr ⟨rfl, rfl, rfl⟩

/-- A loop that stores nothing leaves offset and buffer as they are. -/
theorem parseHeaders_grows {fuel offset offset' : ℕ} {headers headers' : Headers}
    {st st' : CState} (h : parseHeaders fuel offset headers st = .ok (offset', headers', st')) :
    headers.fields.length < headers'.fields.length ∨
      (headers' = headers ∧ offset' = offset ∧ st'.mem = st.mem) := by
  induction fuel generalizing offset headers st with
  | zero => cases h
  | succ fuel ih =>
    rcases parseHeaders_cases h with hsame | ⟨_, _, _, _, _, _, _, -, hheader, hrest⟩
    · exact .inr hsame
    · have hstored := parseHeader_stores hheader
      left
      rcases hrest with hloop | ⟨-, rfl, -⟩
      · rcases ih hloop with hlt | ⟨rfl, -, -⟩ <;> omega
      · omega

/-! ## The whole request -/

namespace RequestHead

variable (r : RequestHead)

theorem text_eq (rest : List UInt8) : r.text ++ rest =
    r.method ++ 32 :: r.path ++ r.more ++
      13 :: 10 :: (headers r.lines ++ 13 :: 10 :: (r.body ++ rest)) := by
  simp [text, bytes_space, bytes_crlf]

/-- The head has at least as many bytes as lines. -/
theorem length_lines_le : r.lines.length ≤ (headers r.lines).length := by
  induction r.lines with
  | nil => simp
  | cons line lines ih =>
    have hcons : headers (line :: lines) = line.text ++ bytes "\r\n" ++ headers lines := rfl
    simp only [hcons, List.length_cons, List.length_append, bytes_crlf, List.length_nil]
    omega

/-- Where there is a header, everything is read as it is meant. -/
theorem requestParse_text {bufferSize : ℕ} (hne : r.lines ≠ [])
    (hfits : r.text.length < bufferSize) :
    requestParse (receiveBuffer bufferSize r.text) =
      .ok { method := r.method, path := r.path
            headers := { fields := r.lines.map HeadLine.stored }, body := r.body } := by
  obtain ⟨n, hn⟩ : ∃ n, bufferSize - r.text.length - 1 = n := ⟨_, rfl⟩
  have hmem : receiveBuffer bufferSize r.text = r.method ++ 32 :: r.path ++ r.more ++
      13 :: 10 :: (headers r.lines ++ 13 :: 10 :: (r.body ++ 0 :: List.replicate n 0)) := by
    rw [receiveBuffer_eq hfits, hn, r.text_eq]
  obtain ⟨pre, saved, hstart⟩ := parseStartLine_words r.method_ne r.path_ne r.method_clean
    r.path_clean r.more_space r.more_clean
    (headers r.lines ++ 13 :: 10 :: (r.body ++ 0 :: List.replicate n 0))
  -- one iteration for each line is within the bound on the loop
  have hfuel : r.lines.length ≤ (receiveBuffer bufferSize r.text).length := by
    have := r.length_lines_le
    simp only [hmem, List.length_append, List.length_cons]
    omega
  obtain ⟨pre', saved', hloop⟩ := parseHeaders_lines (r.body ++ 0 :: List.replicate n 0)
    r.lines hne _ pre headersCreate saved hfuel
  obtain ⟨p, st, hstrtok, hp⟩ := strtok_body pre' (List.replicate n 0) saved' r.body_clean
  rw [List.append_assoc, hmem] at hloop
  simp only [requestParse, hmem, hstart, ok_bind, hloop, hstrtok]
  rcases hp with ⟨rfl, hempty⟩ | ⟨hsome, hread⟩
  · rw [hempty]
    rfl
  · obtain ⟨q, rfl⟩ := Option.isSome_iff_exists.mp hsome
    simp only [hread, ok_bind]
    rfl

/-- `request_parse` tells head and body apart: it stores as many headers as there are
header lines, and the body is the text behind the empty line. -/
def Separated (bufferSize : ℕ) : Prop :=
  ∃ request, requestParse (receiveBuffer bufferSize r.text) = .ok request ∧
    request.headers.fields.length = r.lines.length ∧ request.body = r.body

/-- Without a header, the empty line is taken for the body, or the body for headers. -/
theorem not_separated {bufferSize : ℕ} (hlines : r.lines = [])
    (hfits : r.text.length < bufferSize) : ¬r.Separated bufferSize := by
  rintro ⟨request, hparse, hcount, hbody⟩
  obtain ⟨n, hn⟩ : ∃ n, bufferSize - r.text.length - 1 = n := ⟨_, rfl⟩
  have hmem : receiveBuffer bufferSize r.text = r.method ++ 32 :: r.path ++ r.more ++
      13 :: 10 :: (13 :: 10 :: r.body ++ 0 :: List.replicate n 0) := by
    rw [receiveBuffer_eq hfits, hn, r.text_eq, hlines]
    rfl
  obtain ⟨pre, saved, hstart⟩ := parseStartLine_words r.method_ne r.path_ne r.method_clean
    r.path_clean r.more_space r.more_clean (13 :: 10 :: r.body ++ 0 :: List.replicate n 0)
  unfold requestParse at hparse
  rw [hmem, hstart, ok_bind] at hparse
  obtain ⟨⟨offset, headers, st⟩, hheaders, hparse⟩ := bind_eq_ok.mp hparse
  obtain ⟨⟨p, st'⟩, hstrtok, hparse⟩ := bind_eq_ok.mp hparse
  -- what has been stored, and where the body has been searched
  have hstored : request.headers = headers ∧
      ∀ q, p = some q → readString st'.mem (some q) = .ok request.body := by
    dsimp only at hparse
    split at hparse
    · cases hparse
      exact ⟨rfl, fun q hq => nomatch hq⟩
    · obtain ⟨body, hread, hparse⟩ := bind_eq_ok.mp hparse
      cases hparse
      exact ⟨rfl, fun q hq => Option.some.inj hq ▸ hread⟩
  obtain ⟨rfl, hread⟩ := hstored
  rw [hlines, List.length_nil] at hcount
  rcases parseHeaders_grows hheaders with hlt | ⟨-, rfl, hsame⟩
  · -- a header that does not exist has been stored
    rw [hcount] at hlt
    exact absurd hlt (Nat.not_lt_zero _)
  · -- the body is searched from the empty line on
    have hclean : ∀ c ∈ 13 :: 10 :: r.body, c ≠ 0 := by
      simp only [List.forall_mem_cons]
      exact ⟨by decide, by decide, r.body_clean⟩
    obtain ⟨q, st'', hstrtok', hq⟩ := strtok_body pre (List.replicate n 0) st.saved hclean
    have hst : st = { mem := pre ++ (13 :: 10 :: r.body ++ 0 :: List.replicate n 0)
                      saved := st.saved } := congrArg (CState.mk · st.saved) hsame
    rw [hst, hstrtok'] at hstrtok
    obtain ⟨rfl, rfl⟩ := Prod.mk.inj (Except.ok.inj hstrtok)
    rcases hq with ⟨-, hnil⟩ | ⟨hsome, hall⟩
    · cases hnil
    · obtain ⟨q, rfl⟩ := Option.isSome_iff_exists.mp hsome
      have hlength := congrArg List.length (Except.ok.inj (hall.symm.trans (hread q rfl)))
      rw [hbody, List.length_cons, List.length_cons] at hlength
      omega

/-- **Head and body**: `request_parse` tells them apart if and only if there is at least
one header line, whatever the body holds. -/
theorem separated_iff {bufferSize : ℕ} (hfits : r.text.length < bufferSize) :
    r.Separated bufferSize ↔ r.lines ≠ [] := by
  constructor
  · exact fun hseparated hlines => r.not_separated hlines hfits hseparated
  · intro hne
    exact ⟨_, r.requestParse_text hne hfits, by simp, rfl⟩

end RequestHead

theorem post_ne : bytes "POST" ≠ [] := by decide

theorem post_clean : ∀ c ∈ bytes "POST", c ∉ [0, 10, 13, 32] :=
  List.all_iff_forall_prop.mp (by decide)

theorem root_ne : bytes "/" ≠ [] := by decide

theorem root_clean : ∀ c ∈ bytes "/", c ∉ [0, 10, 13, 32] :=
  List.all_iff_forall_prop.mp (by decide)

theorem host_ne : bytes "Host" ≠ [] := by decide

/-- A request with one header line, and a body that begins like another one. -/
def oneHeader : RequestHead where
  method := bytes "POST"
  path := bytes "/"
  more := bytes " HTTP/1.1"
  lines := [{ name := bytes "Host", rest := bytes "a", name_ne := host_ne
              name_clean := List.all_iff_forall_prop.mp (by decide), rest_ne := by decide
              rest_clean := List.all_iff_forall_prop.mp (by decide) }]
  body := bytes "X: y\r\n\r\n"
  method_ne := post_ne
  method_clean := post_clean
  path_ne := root_ne
  path_clean := root_clean
  more_space := fun _ hc => (Option.some.inj hc).symm
  more_clean := List.all_iff_forall_prop.mp (by decide)
  body_clean := List.all_iff_forall_prop.mp (by decide)

theorem separated_iff_oneHeader : oneHeader.Separated 64 ↔ oneHeader.lines ≠ [] :=
  oneHeader.separated_iff (by decide)

/-- The same request without its header line. -/
def noHeader : RequestHead := { oneHeader with lines := [] }

/-- The body of a request without headers is stored as a header. -/
theorem not_separated_noHeader :
    ∃ request, requestParse (receiveBuffer 64 noHeader.text) = .ok request ∧
      request.headers.fields = [{ name := bytes "x", value := bytes "y" }] ∧
      ¬noHeader.Separated 64 := by
  have hparse : requestParse (receiveBuffer 64 noHeader.text) =
      .ok { method := bytes "POST", path := bytes "/"
            headers := { fields := [{ name := bytes "x", value := bytes "y" }] }
            body := [] } := by decide +kernel
  exact ⟨_, hparse, rfl, noHeader.not_separated rfl (by decide)⟩

end NetworkServers.Http
