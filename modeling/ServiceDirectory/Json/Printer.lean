import ServiceDirectory.Json.Basic

/-!
# Writing JSON text

Values are written without white space. Strings escape only the quote, the
backslash and the control characters below U+0020.
-/

namespace ServiceDirectory.Json

/-- The control characters with an escape of one letter. -/
def shortEscapes : List (Char × Char) :=
  [('"', '"'), ('\\', '\\'), ('\x08', 'b'), ('\x0C', 'f'), ('\n', 'n'), ('\r', 'r'), ('\t', 't')]

def escapeChar (c : Char) : List Char :=
  match shortEscapes.lookup c with
  | some letter => ['\\', letter]
  | none =>
    if c.toNat < 0x20 then
      ['\\', 'u', '0', '0', Nat.digitChar (c.toNat / 16), Nat.digitChar (c.toNat % 16)]
    else [c]

/-- A string literal. -/
def quoted (s : String) : List Char := '"' :: s.toList.flatMap escapeChar ++ ['"']

def Token.spell : Token → List Char
  | .openArray => ['[']
  | .closeArray => [']']
  | .openObject => ['{']
  | .closeObject => ['}']
  | .comma => [',']
  | .colon => [':']
  | .null => ['n', 'u', 'l', 'l']
  | .bool true => ['t', 'r', 'u', 'e']
  | .bool false => ['f', 'a', 'l', 's', 'e']
  | .number n => n.spell
  | .string s => quoted (s.getD "")

mutual

/-- The tokens that spell a value. -/
def tokens : Json → List Token
  | .null => [.null]
  | .bool b => [.bool b]
  | .number n => [.number n]
  | .string s => [.string s]
  | .array items => .openArray :: itemTokens items
  | .object members => .openObject :: memberTokens members

/-- Items and the end of their array. -/
def itemTokens : List Json → List Token
  | [] => [.closeArray]
  | [item] => tokens item ++ [.closeArray]
  | item :: rest => tokens item ++ .comma :: itemTokens rest

/-- Members and the end of their object. -/
def memberTokens : List (Option String × Json) → List Token
  | [] => [.closeObject]
  | [(key, value)] => .string key :: .colon :: tokens value ++ [.closeObject]
  | (key, value) :: rest => .string key :: .colon :: tokens value ++ .comma :: memberTokens rest

end

/-- The text of a value. -/
def print (value : Json) : String := String.ofList (value.tokens.flatMap Token.spell)

end ServiceDirectory.Json
