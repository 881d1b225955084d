import ServiceDirectory.Json.Basic

/-!
# Reading JSON text

Text is cut into tokens, and the tokens are fed one by one to a machine that
keeps the arrays and objects still open. White space is space, tab, line feed and
carriage return; nothing may follow the value; nesting has no limit.
-/

namespace ServiceDirectory.Json

open Text (Symbol)

def isSpace (c : Char) : Bool := c == ' ' || c == '\t' || c == '\n' || c == '\r'

/-! ## String literals -/

/-- What one place of a string literal stands for. -/
inductive Piece where
  | char (c : Char)
  /-- A UTF-16 unit written as an escape. -/
  | unit (n : Nat)
  /-- Bytes that are no character. -/
  | stray

def hexValue (c : Char) : Option Nat :=
  if '0' ≤ c ∧ c ≤ '9' then some (c.toNat - '0'.toNat)
  else if 'a' ≤ c ∧ c ≤ 'f' then some (c.toNat - 'a'.toNat + 10)
  else if 'A' ≤ c ∧ c ≤ 'F' then some (c.toNat - 'A'.toNat + 10)
  else none

/-- The value of hexadecimal digits, if all are such. -/
def hexNat? (digits : List Symbol) : Option Nat :=
  digits.foldlM (fun n s => (s.bind hexValue).map (n * 16 + ·)) 0

/-- The characters with an escape of one letter. -/
def escapes : List (Char × Char) :=
  [('"', '"'), ('\\', '\\'), ('/', '/'), ('b', '\x08'), ('f', '\x0C'), ('n', '\n'), ('r', '\r'),
    ('t', '\t')]

/-- The pieces of a string literal after its opening quote, and what follows its closing one. -/
def literal : List Symbol → Option (List Piece × List Symbol)
  | [] => none
  | none :: rest => (literal rest).map fun r => (.stray :: r.1, r.2)
  | some c :: rest =>
    if c = '"' then some ([], rest)
    else if c = '\\' then
      match rest with
      | some 'u' :: a :: b :: c :: d :: rest =>
        match hexNat? [a, b, c, d] with
        | some n => (literal rest).map fun r => (.unit n :: r.1, r.2)
        | none => none
      | some e :: rest =>
        match escapes.lookup e with
        | some c => (literal rest).map fun r => (.char c :: r.1, r.2)
        | none => none
      | _ => none
    else if c.toNat < 0x20 then none
    else (literal rest).map fun r => (.char c :: r.1, r.2)

def isHighSurrogate (n : Nat) : Bool := 0xD800 ≤ n && n < 0xDC00

def isLowSurrogate (n : Nat) : Bool := 0xDC00 ≤ n && n < 0xE000

/-- The characters of pieces; surrogates must come in pairs of a high and a low one. -/
def characters? : List Piece → Option (List Char)
  | [] => some []
  | .char c :: rest => (characters? rest).map (c :: ·)
  | .stray :: _ => none
  | .unit n :: rest =>
    if isHighSurrogate n then
      match rest with
      | .unit m :: rest =>
        if isLowSurrogate m then
          (characters? rest).map (Char.ofNat (0x10000 + (n - 0xD800) * 0x400 + (m - 0xDC00)) :: ·)
        else none
      | _ => none
    else if isLowSurrogate n then none
    else (characters? rest).map (Char.ofNat n :: ·)

/-! ## Numerals -/

def isDigitSymbol (s : Symbol) : Bool := s.any Char.isDigit

/-- The leading digits, and what follows them. -/
def digits (text : List Symbol) : List Char × List Symbol :=
  ((text.takeWhile isDigitSymbol).filterMap id, text.dropWhile isDigitSymbol)

/-- At least one digit after the character `mark`, if that comes first. -/
def fractionPart (text : List Symbol) : Option (List Char × List Symbol) :=
  match text with
  | some '.' :: rest =>
    let d := digits rest
    if d.1.isEmpty then none else some d
  | _ => some ([], text)

def exponentPart (text : List Symbol) : Option (Option (Bool × List Char) × List Symbol) :=
  match text with
  | some mark :: rest =>
    if mark = 'e' ∨ mark = 'E' then
      let (negative, rest) :=
        match rest with
        | some '-' :: rest => (true, rest)
        | some '+' :: rest => (false, rest)
        | _ => (false, rest)
      let d := digits rest
      if d.1.isEmpty then none else some (some (negative, d.1), d.2)
    else some (none, text)
  | _ => some (none, text)

/-- A numeral without its sign at the start of the text; a zero ends the whole part. -/
def unsigned (negative : Bool) (text : List Symbol) : Option (Numeral × List Symbol) := do
  let (whole, rest) := digits text
  let (whole, rest) :=
    match whole with
    | '0' :: _ => (['0'], text.drop 1)
    | _ => (whole, rest)
  if whole.isEmpty then none
  let (fraction, rest) ← fractionPart rest
  let (exponent, rest) ← exponentPart rest
  some ({ negative, whole, fraction, exponent }, rest)

/-! ## Tokens -/

/-- The token that a single character is. -/
def mark? : Char → Option Token
  | '[' => some .openArray
  | ']' => some .closeArray
  | '{' => some .openObject
  | '}' => some .closeObject
  | ',' => some .comma
  | ':' => some .colon
  | _ => none

/-- The tokens that are words. -/
def words : List (List Char × Token) :=
  [(['n', 'u', 'l', 'l'], .null), (['t', 'r', 'u', 'e'], .bool true),
    (['f', 'a', 'l', 's', 'e'], .bool false)]

/-- The token at the start of a text that does not start with white space, and what follows it. -/
def token? (text : List Symbol) : Option (Token × List Symbol) :=
  match text with
  | some c :: rest =>
    match mark? c with
    | some t => some (t, rest)
    | none =>
      if c = '"' then
        (literal rest).map fun r => (.string ((characters? r.1).map String.ofList), r.2)
      else if c = '-' then (unsigned true rest).map fun r => (.number r.1, r.2)
      else if c.isDigit then (unsigned false text).map fun r => (.number r.1, r.2)
      else
        words.findSome? fun w =>
          if (w.1.map some).isPrefixOf text then some (w.2, text.drop w.1.length) else none
  | _ => none

/-- The tokens of a text, by at most `fuel` steps. -/
def tokensWithin : Nat → List Symbol → Option (List Token)
  | _, [] => some []
  | 0, _ :: _ => none
  | fuel + 1, s :: rest =>
    if s.any isSpace then tokensWithin fuel rest
    else
      match token? (s :: rest) with
      | some (t, rest) => (tokensWithin fuel rest).map (t :: ·)
      | none => none

/-- The tokens of a text; every step takes at least one symbol. -/
def tokens? (text : List Symbol) : Option (List Token) := tokensWithin text.length text

/-! ## Values -/

/-- An array or object that is still open, its contents latest first. -/
inductive Frame where
  | array (items : List Json)
  | object (members : List (Option String × Json)) (key : Option String)

/-- What may come next. -/
inductive Phase where
  /-- A value. -/
  | value
  /-- A value, or the end of the array just opened. -/
  | firstItem
  /-- A key of an open object with these members. -/
  | key (members : List (Option String × Json))
  /-- A key, or the end of the object just opened. -/
  | firstKey
  /-- The colon after a key. -/
  | colon (members : List (Option String × Json)) (key : Option String)
  /-- What may follow a value. -/
  | after (value : Json)

/-- A machine between two tokens: the open frames, the innermost first, and what may come next. -/
structure Machine where
  frames : List Frame := []
  phase : Phase := .value

namespace Machine

/-- A token where a value may start. -/
def start (frames : List Frame) : Token → Option Machine
  | .openArray => some ⟨.array [] :: frames, .firstItem⟩
  | .openObject => some ⟨frames, .firstKey⟩
  | .null => some ⟨frames, .after .null⟩
  | .bool b => some ⟨frames, .after (.bool b)⟩
  | .number n => some ⟨frames, .after (.number n)⟩
  | .string s => some ⟨frames, .after (.string s)⟩
  | _ => none

/-- A token after a complete value. -/
def follow (frames : List Frame) (value : Json) (token : Token) : Option Machine :=
  match frames, token with
  | .array items :: frames, .comma => some ⟨.array (value :: items) :: frames, .value⟩
  | .array items :: frames, .closeArray => some ⟨frames, .after (.array (value :: items).reverse)⟩
  | .object members key :: frames, .comma => some ⟨frames, .key ((key, value) :: members)⟩
  | .object members key :: frames, .closeObject =>
    some ⟨frames, .after (.object ((key, value) :: members).reverse)⟩
  | _, _ => none

def step (m : Machine) (token : Token) : Option Machine :=
  match m.phase with
  | .value => start m.frames token
  | .firstItem =>
    match m.frames, token with
    | _ :: frames, .closeArray => some ⟨frames, .after (.array [])⟩
    | frames, token => start frames token
  | .key members =>
    match token with
    | .string s => some { m with phase := .colon members s }
    | _ => none
  | .firstKey =>
    match token with
    | .string s => some { m with phase := .colon [] s }
    | .closeObject => some { m with phase := .after (.object []) }
    | _ => none
  | .colon members key =>
    match token with
    | .colon => some ⟨.object members key :: m.frames, .value⟩
    | _ => none
  | .after value => follow m.frames value token

def feed (m : Machine) : List Token → Option Machine
  | [] => some m
  | t :: rest =>
    match m.step t with
    | some m => m.feed rest
    | none => none

/-- The value, once it is complete and nothing is open. -/
def result? (m : Machine) : Option Json :=
  match m.frames, m.phase with
  | [], .after value => some value
  | _, _ => none

end Machine

/-- The value that tokens spell. -/
def ofTokens? (tokens : List Token) : Option Json :=
  (({} : Machine).feed tokens).bind Machine.result?

/-- The value that symbols spell. -/
def ofSymbols? (text : List Symbol) : Option Json := (tokens? text).bind ofTokens?

/-- The value that a text spells. -/
def parse? (text : String) : Option Json := ofSymbols? (Text.symbols text)

/-- The value that bytes spell; bytes that are no UTF-8 may stand in string literals only. -/
def parseBytes? (bytes : List UInt8) : Option Json := ofSymbols? (Text.Utf8.decode bytes)

end ServiceDirectory.Json
