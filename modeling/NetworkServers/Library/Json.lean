import NetworkServers.Library.HttpMessage
import NetworkServers.Library.Utf8Encoding

/-!
# JSON

JSON values, the text that `JSON.stringify` writes for them, and `JSON.parse`. Properties of
objects stand in the order in which JavaScript enumerates them, and a number is kept as the
numeral that stands for it.

A fuelled parser is hard to reason about, so there is the grammar beside it: `Reads` has one
rule for each way in which the parser succeeds.
-/

namespace NetworkServers.Js

/-! ## Values -/

/-- A JSON value. -/
inductive Json where
  | null
  | bool (b : Bool)
  | number (numeral : JsString)
  | string (text : JsString)
  | array (elements : List Json)
  | object (properties : List (JsString × Json))

namespace Json

/-! ## Properties -/

/-- A decimal digit. -/
def isDigit (c : UInt16) : Bool := 48 ≤ c && c ≤ 57

/-- The value of a row of digits. -/
def digitsValue (s : JsString) : ℕ := s.foldl (fun n c => 10 * n + (c.toNat - 48)) 0

/-- The number that a property key stands for, if it is an array index. -/
def arrayIndex (key : JsString) : Option ℕ :=
  if key ≠ [] ∧ key.all isDigit ∧ (key.head? = some 48 → key = [48]) ∧
      digitsValue key < 0xFFFFFFFF then some (digitsValue key)
  else none

/-- Whether a new key is enumerated before one that is there: array indices come first, in
their order, and other keys as they were added. -/
def comesBefore (key other : JsString) : Bool :=
  match arrayIndex key, arrayIndex other with
  | some i, some j => i < j
  | some _, none => true
  | none, _ => false

/-- `object[key] = value` for an own property. -/
def setProperty (key : JsString) (value : Json) :
    List (JsString × Json) → List (JsString × Json)
  | [] => [(key, value)]
  | (other, v) :: properties =>
    if other = key then (key, value) :: properties
    else if comesBefore key other then (key, value) :: (other, v) :: properties
    else (other, v) :: setProperty key value properties

/-- The own properties that are written when the one for a key is gone or `undefined`. -/
def removeProperty (key : JsString) (properties : List (JsString × Json)) :
    List (JsString × Json) :=
  properties.filter fun property => property.1 ≠ key

/-- The object with some properties, set one after the other. -/
def ofProperties (properties : List (JsString × Json)) : List (JsString × Json) :=
  properties.foldl (fun object property => setProperty property.1 property.2 object) []

/-- The value of an own property. -/
def getProperty (properties : List (JsString × Json)) (key : JsString) : Option Json :=
  (properties.find? fun property => property.1 = key).map Prod.snd

/-! ## stringify -/

/-- A lead surrogate. -/
def isLead (c : UInt16) : Bool := 0xD800 ≤ c && c ≤ 0xDBFF

/-- A trail surrogate. -/
def isTrail (c : UInt16) : Bool := 0xDC00 ≤ c && c ≤ 0xDFFF

/-- The characters that are written with a letter behind a backslash. -/
def escapes : List (UInt16 × UInt16) :=
  [(8, 98), (9, 116), (10, 110), (12, 102), (13, 114), (34, 34), (92, 92)]

/-- `\uXXXX`. -/
def unicodeEscape (c : UInt16) : JsString :=
  [92, 117, hexDigit (c.toNat / 0x1000), hexDigit (c.toNat / 0x100 % 0x10),
    hexDigit (c.toNat / 0x10 % 0x10), hexDigit (c.toNat % 0x10)]

/-- A code unit that is not part of a surrogate pair. -/
def quoteUnit (c : UInt16) : JsString :=
  match escapes.lookup c with
  | some letter => [92, letter]
  | none => if c < 32 || isLead c || isTrail c then unicodeEscape c else [c]

/-- The text between the quotes. -/
def quoteUnits : JsString → JsString
  | [] => []
  | [c] => quoteUnit c
  | c :: d :: s =>
    if isLead c && isTrail d then c :: d :: quoteUnits s else quoteUnit c ++ quoteUnits (d :: s)

/-- A string in quotes. -/
def quote (s : JsString) : JsString := 34 :: (quoteUnits s ++ [34])

mutual

/-- `JSON.stringify(value)`. -/
def stringify : Json → JsString
  | .null => js "null"
  | .bool true => js "true"
  | .bool false => js "false"
  | .number numeral => numeral
  | .string text => quote text
  | .array elements => 91 :: (stringifyElements elements ++ [93])
  | .object properties => 123 :: (stringifyProperties properties ++ [125])

/-- The elements of an array. -/
def stringifyElements : List Json → JsString
  | [] => []
  | [v] => v.stringify
  | v :: vs => v.stringify ++ 44 :: stringifyElements vs

/-- The properties of an object. -/
def stringifyProperties : List (JsString × Json) → JsString
  | [] => []
  | [(key, v)] => quote key ++ 58 :: v.stringify
  | (key, v) :: properties =>
    quote key ++ 58 :: (v.stringify ++ 44 :: stringifyProperties properties)

end

/-! ## Tokens -/

/-- White space between tokens. -/
def isSpace (c : UInt16) : Bool := c = 32 || c = 9 || c = 10 || c = 13

/-- The text from the next token on. -/
def skipSpace (s : JsString) : JsString := s.dropWhile isSpace

/-- The text behind the next token, if this is the character `c`. -/
def expect (c : UInt16) (s : JsString) : Option JsString :=
  match skipSpace s with
  | [] => none
  | d :: s => if d = c then some s else none

/-- The character that a letter behind a backslash stands for. -/
def unescape (letter : UInt16) : Option UInt16 :=
  if letter = 47 then some 47
  else (escapes.find? fun pair => pair.2 = letter).map Prod.fst

/-- The code unit of four hexadecimal digits. -/
def hexUnit (a b c d : UInt16) : Option UInt16 := do
  let a ← hexValue a
  let b ← hexValue b
  let c ← hexValue c
  let d ← hexValue d
  return (((a * 16 + b) * 16 + c) * 16 + d).toUInt16

/-- The string up to its closing quote, and the text behind it. -/
def readString : JsString → Option (JsString × JsString)
  | [] => none
  | c :: s =>
    if c = 34 then some ([], s)
    else if c = 92 then
      match s with
      | [] => none
      | letter :: s =>
        if letter = 117 then
          match s with
          | h₁ :: h₂ :: h₃ :: h₄ :: s =>
            match hexUnit h₁ h₂ h₃ h₄ with
            | some c => (readString s).map fun r => (c :: r.1, r.2)
            | none => none
          | _ => none
        else
          match unescape letter with
          | some c => (readString s).map fun r => (c :: r.1, r.2)
          | none => none
    else if c < 32 then none
    else (readString s).map fun r => (c :: r.1, r.2)

/-- The characters of numerals. -/
def isNumberChar (c : UInt16) : Bool := isDigit c || c = 43 || c = 45 || c = 46 || c = 69 || c = 101

/-- Nothing, or an exponent. -/
def isExponent : JsString → Bool
  | [] => true
  | c :: s =>
    let digits := if s.head? = some 43 ∨ s.head? = some 45 then s.tail else s
    (c = 69 || c = 101) && digits ≠ [] && digits.all isDigit

/-- Nothing, or a fraction and an exponent. -/
def isFraction : JsString → Bool
  | [] => true
  | c :: s =>
    if c = 46 then s.takeWhile isDigit ≠ [] && isExponent (s.dropWhile isDigit)
    else isExponent (c :: s)

/-- A number without a sign. The integer part has no leading zeros. -/
def isUnsigned (s : JsString) : Bool :=
  let digits := s.takeWhile isDigit
  digits ≠ [] && (digits.head? ≠ some 48 || digits = [48]) && isFraction (s.dropWhile isDigit)

/-- A number as JSON writes it. -/
def isNumeral (s : JsString) : Bool :=
  s.all isNumberChar && isUnsigned (if s.head? = some 45 then s.tail else s)

/-- A number at the start of the text. -/
def readNumber (s : JsString) : Option (Json × JsString) :=
  if isNumeral (s.takeWhile isNumberChar) then
    some (.number (s.takeWhile isNumberChar), s.dropWhile isNumberChar)
  else none

/-- A keyword at the start of the text. -/
def readWord (word : JsString) (v : Json) (s : JsString) : Option (Json × JsString) :=
  if word.isPrefixOf s then some (v, s.drop word.length) else none

/-- A keyword or a number. -/
def readAtom (s : JsString) : Option (Json × JsString) :=
  if s.head? = some 110 then readWord (js "null") .null s
  else if s.head? = some 116 then readWord (js "true") (.bool true) s
  else if s.head? = some 102 then readWord (js "false") (.bool false) s
  else readNumber s

/-! ## parse -/

mutual

/-- A value, and the text behind it. -/
def parseValue : ℕ → JsString → Option (Json × JsString)
  | 0, _ => none
  | fuel + 1, s =>
    match skipSpace s with
    | [] => none
    | c :: s =>
      if c = 34 then (readString s).map fun r => (.string r.1, r.2)
      else if c = 91 then
        match expect 93 s with
        | some s => some (.array [], s)
        | none => (parseElements fuel s).map fun r => (.array r.1, r.2)
      else if c = 123 then
        match expect 125 s with
        | some s => some (.object [], s)
        | none => (parseProperties fuel s).map fun r => (.object (ofProperties r.1), r.2)
      else readAtom (c :: s)

/-- One element or more, up to the bracket behind them. -/
def parseElements : ℕ → JsString → Option (List Json × JsString)
  | 0, _ => none
  | fuel + 1, s => do
    let (v, s) ← parseValue fuel s
    match expect 44 s with
    | some s =>
      let (vs, s) ← parseElements fuel s
      some (v :: vs, s)
    | none =>
      let s ← expect 93 s
      some ([v], s)

/-- One property or more, up to the brace behind them. -/
def parseProperties : ℕ → JsString → Option (List (JsString × Json) × JsString)
  | 0, _ => none
  | fuel + 1, s => do
    let s ← expect 34 s
    let (key, s) ← readString s
    let s ← expect 58 s
    let (v, s) ← parseValue fuel s
    match expect 44 s with
    | some s =>
      let (properties, s) ← parseProperties fuel s
      some ((key, v) :: properties, s)
    | none =>
      let s ← expect 125 s
      some ([(key, v)], s)

end

/-- `JSON.parse(text)`, `none` where it throws. -/
def parse (text : JsString) : Option Json := do
  let (v, rest) ← parseValue (2 * text.length) text
  if skipSpace rest = [] then some v else none

end Json

end NetworkServers.Js
