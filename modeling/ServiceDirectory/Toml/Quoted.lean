import ServiceDirectory.Toml.Basic

/-!
# Quoted strings

A string stands between double quotes, where escapes are undone, or between
apostrophes, where nothing is. Three of either make a string of several lines:
a line end right after the opening ones is dropped, and up to two more of them
may stand before the closing ones.
-/

namespace ServiceDirectory.Toml

/-! ## Escapes -/

/-- Where the undoing of escapes stands between two characters. -/
inductive Escape where
  | none
  /-- After a backslash. -/
  | begun
  /-- In a code point of which digits are due. -/
  | codePoint (due value : Nat)
  /-- After a backslash and blanks, where the line has to end. -/
  | lineEnd
  /-- After an escaped line end, where blanks and further line ends count for nothing. -/
  | skipping
  deriving DecidableEq

/-- The escapes of one letter. -/
def letterEscapes : List (Char × Char) :=
  [('b', '\x08'), ('t', '\t'), ('n', '\n'), ('f', '\x0C'), ('r', '\r'), ('"', '"'), ('\\', '\\')]

def hexValue? (c : Char) : Option Nat :=
  if '0' ≤ c ∧ c ≤ '9' then some (c.toNat - '0'.toNat)
  else if 'a' ≤ c ∧ c ≤ 'f' then some (c.toNat - 'a'.toNat + 10)
  else if 'A' ≤ c ∧ c ≤ 'F' then some (c.toNat - 'A'.toNat + 10)
  else .none

def char? (n : Nat) : Option Char := if n.isValidChar then some (Char.ofNat n) else .none

namespace Escape

/-- A character that no escape claims. -/
def plain (lines : Bool) (c : Char) : Option (Escape × List Char) :=
  if c = '\\' then some (.begun, [])
  else if isPlain c || (lines && c == '\n') then some (.none, [c])
  else .none

/-- One character; `lines` allows line ends, and to escape them. -/
def step (lines : Bool) (escape : Escape) (c : Char) : Option (Escape × List Char) :=
  match escape with
  | .none => plain lines c
  | .begun =>
    if c = 'u' then some (.codePoint 4 0, [])
    else if c = 'U' then some (.codePoint 8 0, [])
    else
      match letterEscapes.lookup c with
      | some d => some (.none, [d])
      | .none =>
        if lines && c == '\n' then some (.skipping, [])
        else if lines && isBlank c then some (.lineEnd, [])
        else .none
  | .codePoint due value =>
    match hexValue? c with
    | .none => .none
    | some digit =>
      let value := value * 16 + digit
      if due ≤ 1 then (char? value).map fun d => (.none, [d])
      else some (.codePoint (due - 1) value, [])
  | .lineEnd =>
    if c = '\n' then some (.skipping, [])
    else if isBlank c then some (.lineEnd, [])
    else .none
  | .skipping => if c = '\n' ∨ isBlank c then some (.skipping, []) else plain lines c

/-- The text of the characters between double quotes. -/
def undo? (lines : Bool) : Escape → List Char → Option (List Char)
  | .none, [] | .skipping, [] => some []
  | _, [] => .none
  | escape, c :: rest =>
    match escape.step lines c with
    | some (escape, out) => (undo? lines escape rest).map (out ++ ·)
    | .none => .none

end Escape

/-! ## Delimiters -/

/-- What stands before the closing double quote. -/
def untilQuote : Reader (List Char)
  | [] => none
  | '"' :: rest => some ([], rest)
  | '\\' :: c :: rest => (untilQuote rest).map fun r => ('\\' :: c :: r.1, r.2)
  | c :: rest => (untilQuote rest).map fun r => (c :: r.1, r.2)

/-- What stands before the closing three double quotes. -/
def untilQuotes : Reader (List Char)
  | [] => none
  | '"' :: '"' :: '"' :: '"' :: '"' :: rest => some (['"', '"'], rest)
  | '"' :: '"' :: '"' :: '"' :: rest => some (['"'], rest)
  | '"' :: '"' :: '"' :: rest => some ([], rest)
  | '\\' :: c :: rest => (untilQuotes rest).map fun r => ('\\' :: c :: r.1, r.2)
  | c :: rest => (untilQuotes rest).map fun r => (c :: r.1, r.2)

/-- What stands before the closing apostrophe. -/
def untilApostrophe : Reader (List Char)
  | [] => none
  | '\'' :: rest => some ([], rest)
  | c :: rest => (untilApostrophe rest).map fun r => (c :: r.1, r.2)

/-- What stands before the closing three apostrophes. -/
def untilApostrophes : Reader (List Char)
  | [] => none
  | '\'' :: '\'' :: '\'' :: '\'' :: '\'' :: rest => some (['\'', '\''], rest)
  | '\'' :: '\'' :: '\'' :: '\'' :: rest => some (['\''], rest)
  | '\'' :: '\'' :: '\'' :: rest => some ([], rest)
  | c :: rest => (untilApostrophes rest).map fun r => (c :: r.1, r.2)

/-- Without the line end that it may start with. -/
def dropLineEnd : List Char → List Char
  | '\n' :: rest => rest
  | text => text

/-- A string on one line, from its opening delimiter on. -/
def lineString? : Reader String
  | '"' :: rest => do
    let (raw, rest) ← untilQuote rest
    let text ← Escape.undo? false .none raw
    some (String.ofList text, rest)
  | '\'' :: rest => do
    let (raw, rest) ← untilApostrophe rest
    if raw.all isPlain then some (String.ofList raw, rest) else none
  | _ => none

/-- A string of either kind, from its opening delimiter on. -/
def string? : Reader String
  | '"' :: '"' :: '"' :: rest => do
    let (raw, rest) ← untilQuotes (dropLineEnd rest)
    let text ← Escape.undo? true .none raw
    some (String.ofList text, rest)
  | '\'' :: '\'' :: '\'' :: rest => do
    let (raw, rest) ← untilApostrophes (dropLineEnd rest)
    if raw.all fun c => isPlain c || c == '\n' then some (String.ofList raw, rest) else none
  | text => lineString? text

end ServiceDirectory.Toml
