import Mathlib.Data.List.DropRight
import NetworkServers.Library.HttpMessage

/-!
# Reading Fields and Sized Bodies

The client's side of a response whose body has a stated length: the status line, the
field lines up to the first empty line, each taken apart at its first `": "`, and then as
many bytes as `Content-Length` says. As for the chunked coding, each reader comes with the
lemma for the text that a sender writes, followed by anything at all.

`readMessage` looks at the fields to find out where a body ends: by the request and the status,
by `Transfer-Encoding`, or by `Content-Length`.
-/

namespace NetworkServers.HttpMessage

/-! ## Whole numbers -/

/-- The decimal numeral of a number that may be negative. -/
def integer : ℤ → List UInt8
  | .ofNat n => numeral 10 n
  | .negSucc n => 45 :: numeral 10 (n + 1)

/-- The value of a numeral that may have a sign. -/
def integerValue : List UInt8 → Option ℤ
  | 45 :: s => (numeralValue 10 s).map fun n => -(n : ℤ)
  | s => (numeralValue 10 s).map fun n => (n : ℤ)

/-- A numeral does not contain a byte that is no digit. -/
theorem not_mem_numeral {c : UInt8} (hc : digitValue c = none) (n : ℕ) : c ∉ numeral 10 n := by
  intro hmem
  have hsome := digitValue_isSome_of_mem_numeral (by decide) (by decide) hmem
  rw [hc] at hsome
  cases hsome

theorem integerValue_integer (n : ℤ) : integerValue (integer n) = some n := by
  cases n with
  | ofNat n =>
    -- the first byte is a digit and not a sign
    have hsign : ∀ s, integer (.ofNat n) ≠ 45 :: s := by
      intro s heq
      have hmem : (45 : UInt8) ∈ numeral 10 n := by
        show 45 ∈ integer (.ofNat n)
        rw [heq]
        exact List.mem_cons_self
      exact not_mem_numeral (by decide) n hmem
    unfold integerValue
    split
    · rename_i s heq
      exact absurd heq (hsign s)
    · rw [integer, numeralValue_numeral (by decide) (by decide)]
      rfl
  | negSucc n =>
    rw [integer, integerValue, numeralValue_numeral (by decide) (by decide)]
    rfl

/-- A signed numeral does not contain a byte that is neither a digit nor the sign. -/
theorem not_mem_integer {c : UInt8} (hc : digitValue c = none) (hsign : c ≠ 45) (n : ℤ) :
    c ∉ integer n := by
  cases n with
  | ofNat n => exact not_mem_numeral hc n
  | negSucc n =>
    intro hmem
    rcases List.mem_cons.mp hmem with rfl | hmem
    · exact hsign rfl
    · exact not_mem_numeral hc (n + 1) hmem

/-! ## Fields -/

/-- A field. -/
structure Field where
  name : List UInt8
  value : List UInt8
deriving DecidableEq, Repr

/-- What stands between the name and the value of a field. -/
def fieldMark : List UInt8 := [58, 32]

/-- A field line without its end. -/
def Field.text (field : Field) : List UInt8 := field.name ++ fieldMark ++ field.value

/-- Take a line apart at its first mark. -/
def readField (line : List UInt8) : Option Field :=
  (splitAround 58 32 line).map fun (name, value) => { name := name, value := value }

/-- The fields up to the first empty line, and the bytes behind it; `fuel` bounds their
number. -/
def readFieldsFrom : ℕ → List UInt8 → Option (List Field × List UInt8)
  | 0, _ => none
  | fuel + 1, s =>
    match splitLine s with
    | none => none
    | some ([], rest) => some ([], rest)
    | some (c :: line, rest) => do
      let field ← readField (c :: line)
      let (fields, rest) ← readFieldsFrom fuel rest
      return (field :: fields, rest)

/-- A field takes more than one byte, so the length is enough fuel. -/
def readFields (s : List UInt8) : Option (List Field × List UInt8) :=
  readFieldsFrom (s.length + 1) s

/-- A field whose line reads back: there is no mark inside of its name, and no line end
inside of the line. An empty name is allowed, and so is an empty value. -/
structure Field.Clean (field : Field) : Prop where
  name : ¬fieldMark <:+: field.name
  text : ¬crlf <:+: field.text

theorem readField_text {field : Field} (h : field.Clean) : readField field.text = some field := by
  have hsplit := splitAround_mark (show (58 : UInt8) ≠ 32 by decide) h.name field.value
  show (splitAround 58 32 (field.name ++ [58, 32] ++ field.value)).map _ = _
  rw [hsplit]
  rfl

/-- A field line is never empty, because the mark is part of it. -/
theorem Field.text_ne_nil (field : Field) : field.text ≠ [] := by
  intro h
  have hmark := (List.append_eq_nil_iff.mp (List.append_eq_nil_iff.mp h).1).2
  cases hmark

/-- Reading one field line. -/
theorem readFieldsFrom_text {field : Field} (h : field.Clean) (fuel : ℕ) (s : List UInt8) :
    readFieldsFrom (fuel + 1) (field.text ++ crlf ++ s) =
      (readFieldsFrom fuel s).map fun (fields, rest) => (field :: fields, rest) := by
  obtain ⟨c, line, hline⟩ := List.exists_cons_of_ne_nil field.text_ne_nil
  rw [readFieldsFrom, splitLine_crlf h.text, hline]
  show (readField (c :: line)).bind _ = _
  rw [← hline, readField_text h]
  cases readFieldsFrom fuel s <;> rfl

/-- Field lines read back up to the empty line behind them, with any fuel beyond their
number. -/
theorem readFieldsFrom_flatMap {fields : List Field} (h : ∀ field ∈ fields, field.Clean)
    {fuel : ℕ} (hfuel : fields.length < fuel) (rest : List UInt8) :
    readFieldsFrom fuel (fields.flatMap (fun field => field.text ++ crlf) ++ (crlf ++ rest)) =
      some (fields, rest) := by
  obtain ⟨fuel, rfl⟩ := Nat.exists_eq_succ_of_ne_zero (Nat.ne_zero_of_lt hfuel)
  induction fields generalizing fuel with
  | nil => rfl
  | cons field fields ih =>
    have hlt : fields.length < fuel := Nat.lt_of_succ_lt_succ hfuel
    obtain ⟨fuel, rfl⟩ := Nat.exists_eq_succ_of_ne_zero (Nat.ne_zero_of_lt hlt)
    have hrest := ih (fun f hf => h f (List.mem_cons_of_mem field hf)) fuel hlt
    rw [List.flatMap_cons, List.append_assoc, readFieldsFrom_text (h field List.mem_cons_self),
      hrest]
    rfl

theorem readFields_flatMap {fields : List Field} (h : ∀ field ∈ fields, field.Clean)
    (rest : List UInt8) :
    readFields (fields.flatMap (fun field => field.text ++ crlf) ++ (crlf ++ rest)) =
      some (fields, rest) := by
  apply readFieldsFrom_flatMap h
  have hlength := length_le_flatMap (fun field : Field =>
    List.append_ne_nil_of_right_ne_nil field.text (show crlf ≠ [] by decide)) fields
  simp only [List.length_append]
  omega

/-! ## Responses with a stated length -/

/-- An upper-case letter in lower case, and every other byte as it is. -/
def lower (c : UInt8) : UInt8 := if 65 ≤ c ∧ c ≤ 90 then c + 32 else c

/-- What a client takes out of a response. -/
structure SizedResponse where
  status : ℤ
  fields : List Field
  length : ℕ
  body : List UInt8
deriving DecidableEq, Repr

/-- `Content-Length`. -/
def lengthName : List UInt8 := "Content-Length".toList.map fun c => c.toNat.toUInt8

/-- The status in a status line. -/
def statusValue (line : List UInt8) : Option ℤ :=
  if version.isPrefixOf line then
    integerValue ((line.drop version.length).takeWhile fun c => c ≠ 32)
  else none

/-- The value of the first `Content-Length` field. -/
def lengthOf (fields : List Field) : Option ℕ := do
  let field ← fields.find? fun field => field.name.map lower = lengthName.map lower
  numeralValue 10 field.value

/-- Read a response, and give the bytes that are left over. -/
def readSized (s : List UInt8) : Option (SizedResponse × List UInt8) := do
  let (line, s) ← splitLine s
  let status ← statusValue line
  let (fields, s) ← readFields s
  let length ← lengthOf fields
  if length ≤ s.length then
    return ({ status := status, fields := fields, length := length, body := s.take length },
      s.drop length)
  else none

/-- A status line reads back, whatever reason follows the status. -/
theorem statusValue_line (status : ℤ) (reason : List UInt8) :
    statusValue (version ++ integer status ++ 32 :: reason) = some status := by
  have hprefix : version.isPrefixOf (version ++ integer status ++ 32 :: reason) := by
    rw [List.isPrefixOf_iff_prefix, List.append_assoc]
    exact List.prefix_append _ _
  -- the blank behind the status ends its digits
  have hblank : (32 : UInt8) ∉ integer status := not_mem_integer (by decide) (by decide) status
  have hdigits : ∀ c ∈ integer status, decide (c ≠ 32) = true := fun c hc =>
    decide_eq_true (ne_of_mem_of_not_mem hc hblank)
  have htoken : (integer status ++ 32 :: reason).takeWhile (fun c => c ≠ 32) = integer status := by
    rw [List.takeWhile_append_of_pos hdigits]
    simp
  rw [statusValue, if_pos hprefix, List.append_assoc, List.drop_left, htoken, integerValue_integer]

/-- **A response with a stated length reads back**: the field lines are read up to the
empty line, and then the body by its length, whatever bytes it consists of. -/
theorem readSized_text {status : ℤ} {reason : List UInt8} {fields : List Field}
    {body : List UInt8} (hreason : 13 ∉ reason) (hfields : ∀ field ∈ fields, field.Clean)
    (hlength : lengthOf fields = some body.length) (rest : List UInt8) :
    readSized (version ++ integer status ++ 32 :: reason ++ crlf ++
        (fields.flatMap (fun field => field.text ++ crlf) ++ (crlf ++ (body ++ rest)))) =
      some ({ status := status, fields := fields, length := body.length, body := body }, rest) := by
  -- no carriage return stands in front of the end of the status line
  have hline : ¬crlf <:+: version ++ integer status ++ 32 :: reason := by
    intro h
    have hmem : (13 : UInt8) ∈ version ++ integer status ++ 32 :: reason := h.subset (by decide)
    simp only [List.mem_append, List.mem_cons] at hmem
    rcases hmem with (hmem | hmem) | hmem | hmem
    · exact absurd hmem (by decide)
    · exact not_mem_integer (by decide) (by decide) status hmem
    · cases hmem
    · exact hreason hmem
  have hle : body.length ≤ (body ++ rest).length := by simp
  -- the status line, the field lines, and the body by its length
  rw [readSized, splitLine_crlf hline]
  show (statusValue _).bind _ = _
  rw [statusValue_line]
  show (readFields _).bind _ = _
  rw [readFields_flatMap hfields]
  show (lengthOf fields).bind _ = _
  rw [hlength]
  show (if body.length ≤ (body ++ rest).length then _ else _) = _
  rw [if_pos hle, List.take_left, List.drop_left]
  rfl

/-! ## Messages by their fields -/

/-- The lines up to the first empty one, and the bytes behind it; `fuel` bounds their
number. -/
def readLinesFrom : ℕ → List UInt8 → Option (List (List UInt8) × List UInt8)
  | 0, _ => none
  | fuel + 1, s =>
    match splitLine s with
    | none => none
    | some ([], rest) => some ([], rest)
    | some (line, rest) => (readLinesFrom fuel rest).map fun (lines, rest) => (line :: lines, rest)

/-- A line takes more than one byte, so the length is enough fuel. -/
def readLines (s : List UInt8) : Option (List (List UInt8) × List UInt8) :=
  readLinesFrom (s.length + 1) s

/-- The bytes of which the name of a field is made: letters, digits and some signs. -/
def isNameByte (c : UInt8) : Bool :=
  (48 ≤ c ∧ c ≤ 57) ∨ (65 ≤ c ∧ c ≤ 90) ∨ (97 ≤ c ∧ c ≤ 122) ∨
    c ∈ [33, 35, 36, 37, 38, 39, 42, 43, 45, 46, 94, 95, 96, 124, 126]

/-- A blank or a tab. -/
def isBlank (c : UInt8) : Bool := c = 32 ∨ c = 9

/-- Take a field line apart at its first colon. There is no field without one, or with
anything else than a name in front of it; blanks around the value do not count. -/
def readFieldLine (line : List UInt8) : Option Field :=
  match line.dropWhile (· ≠ 58) with
  | [] => none
  | _ :: value =>
    let name := line.takeWhile (· ≠ 58)
    if name ≠ [] ∧ name.all isNameByte then
      some { name := name, value := (value.dropWhile isBlank).rdropWhile isBlank }
    else none

/-- Where the body of a response ends. -/
inductive BodyEnd where
  | empty
  | chunked
  | sized (length : ℕ)

/-- `Transfer-Encoding`. -/
def codingName : List UInt8 := "Transfer-Encoding".toList.map fun c => c.toNat.toUInt8

/-- `chunked`. -/
def chunkedCoding : List UInt8 := "chunked".toList.map fun c => c.toNat.toUInt8

/-- The end of a body, by the request, the status and the fields. It is not known for other
codings, and where only the end of the connection ends the body. -/
def bodyEnd (toHead : Bool) (status : ℕ) (fields : List Field) : Option BodyEnd :=
  if toHead ∨ status < 200 ∨ status = 204 ∨ status = 304 then some .empty
  else
    match fields.find? fun field => field.name.map lower = codingName.map lower with
    | some field => if field.value.map lower = chunkedCoding then some .chunked else none
    | none => (lengthOf fields).map .sized

/-- What a client takes out of a message. -/
structure Message where
  status : ℕ
  fields : List Field
  body : List UInt8
deriving DecidableEq, Repr

/-- Read a response, and give the bytes that are left over. A status line may end behind the
status. -/
def readMessage (toHead : Bool) (s : List UInt8) : Option (Message × List UInt8) := do
  let (line, s) ← splitLine s
  let status ← statusCode line
  let (lines, s) ← readLines s
  let fields ← lines.mapM readFieldLine
  match ← bodyEnd toHead status fields with
  | .empty => return ({ status := status, fields := fields, body := [] }, s)
  | .chunked =>
    let (body, rest) ← decodeChunked s
    return ({ status := status, fields := fields, body := body }, rest)
  | .sized length =>
    if length ≤ s.length then
      return ({ status := status, fields := fields, body := s.take length }, s.drop length)
    else none

/-- Lines read back up to the empty line behind them, with any fuel beyond their number. -/
theorem readLinesFrom_flatMap {lines : List (List UInt8)}
    (h : ∀ line ∈ lines, line ≠ [] ∧ ¬crlf <:+: line) {fuel : ℕ} (hfuel : lines.length < fuel)
    (rest : List UInt8) :
    readLinesFrom fuel (lines.flatMap (· ++ crlf) ++ (crlf ++ rest)) = some (lines, rest) := by
  obtain ⟨fuel, rfl⟩ := Nat.exists_eq_succ_of_ne_zero (Nat.ne_zero_of_lt hfuel)
  induction lines generalizing fuel with
  | nil => rfl
  | cons line lines ih =>
    have hlt : lines.length < fuel := Nat.lt_of_succ_lt_succ hfuel
    obtain ⟨fuel, rfl⟩ := Nat.exists_eq_succ_of_ne_zero (Nat.ne_zero_of_lt hlt)
    have hrest := ih (fun l hl => h l (List.mem_cons_of_mem line hl)) fuel hlt
    obtain ⟨hne, hline⟩ := h line List.mem_cons_self
    obtain ⟨c, line, rfl⟩ := List.exists_cons_of_ne_nil hne
    rw [List.flatMap_cons, List.append_assoc, readLinesFrom, splitLine_crlf hline]
    exact congrArg (Option.map _) hrest

theorem readLines_flatMap {lines : List (List UInt8)}
    (h : ∀ line ∈ lines, line ≠ [] ∧ ¬crlf <:+: line) (rest : List UInt8) :
    readLines (lines.flatMap (· ++ crlf) ++ (crlf ++ rest)) = some (lines, rest) := by
  apply readLinesFrom_flatMap h
  have hlength := length_le_flatMap (fun line : List UInt8 =>
    List.append_ne_nil_of_right_ne_nil line (show crlf ≠ [] by decide)) lines
  simp only [List.length_append]
  omega

/-- A field line reads back. -/
theorem readFieldLine_colon {name : List UInt8} (hne : name ≠ []) (hname : name.all isNameByte)
    (value : List UInt8) : readFieldLine (name ++ 58 :: value) =
      some { name := name, value := (value.dropWhile isBlank).rdropWhile isBlank } := by
  have hcolon : ∀ c ∈ name, decide (c ≠ 58) = true := by
    intro c hc
    rw [decide_eq_true_iff]
    rintro rfl
    exact absurd (List.all_eq_true.mp hname 58 hc) (by decide)
  have hdrop : (name ++ 58 :: value).dropWhile (· ≠ 58) = 58 :: value := by
    rw [List.dropWhile_append_of_pos hcolon]
    rfl
  have htake : (name ++ 58 :: value).takeWhile (· ≠ 58) = name := by
    rw [List.takeWhile_append_of_pos hcolon]
    simp
  rw [readFieldLine, hdrop]
  simp only [htake]
  exact if_pos ⟨hne, hname⟩

/-- **A chunked message reads back**, if its fields say that it is chunked: whatever its chunks
consist of, nothing of it is left over, and nothing behind it is taken. -/
theorem readMessage_chunked {toHead : Bool} {status : ℕ} {lines chunks : List (List UInt8)}
    {fields : List Field} (hlines : ∀ line ∈ lines, line ≠ [] ∧ ¬crlf <:+: line)
    (hfields : lines.mapM readFieldLine = some fields)
    (hend : bodyEnd toHead status fields = some .chunked) (hchunks : ∀ data ∈ chunks, data ≠ [])
    (rest : List UInt8) :
    readMessage toHead (statusLine status ++ crlf ++ (lines.flatMap (· ++ crlf) ++
        (crlf ++ (chunks.flatMap chunkBytes ++ lastChunk ++ rest)))) =
      some ({ status := status, fields := fields, body := chunks.flatten }, rest) := by
  rw [readMessage, splitLine_crlf (not_crlf_infix_statusLine status)]
  show (statusCode (statusLine status)).bind _ = _
  rw [statusCode_statusLine]
  show (readLines _).bind _ = _
  rw [readLines_flatMap hlines]
  show (lines.mapM readFieldLine).bind _ = _
  rw [hfields]
  show (bodyEnd toHead status fields).bind _ = _
  rw [hend]
  show (decodeChunked _).bind _ = _
  rw [decodeChunked_flatMap hchunks]
  rfl

end NetworkServers.HttpMessage
