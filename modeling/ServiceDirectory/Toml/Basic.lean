/-!
# TOML values

A document is a tree of tables. Of each table it is kept how it came about,
because that decides whether later lines may still add to it. Floats and times
are told apart from other values, but their worth is not kept.
-/

namespace ServiceDirectory.Toml

/-- How a table came about. -/
inductive Origin where
  /-- Written between braces; complete. -/
  | braces
  /-- Opened by a header of its own. -/
  | header
  /-- On the way to a table opened by a header. -/
  | passage
  /-- On the way of a dotted key. -/
  | dotted
  deriving DecidableEq

inductive Value where
  | string (text : String)
  | integer (value : Int)
  | float
  | time
  | bool (value : Bool)
  | array (items : List Value)
  | table (origin : Origin) (members : List (String × Value))
  /-- Tables that are opened one by one by headers of the same name. -/
  | tables (elements : List (List (String × Value)))
  deriving Inhabited

/-- The members of a table by name. -/
abbrev Members := List (String × Value)

/-- A reader takes something from the start of a text and leaves the rest. -/
abbrev Reader (α : Type) := List Char → Option (α × List Char)

/-! ## Characters -/

def isBlank (c : Char) : Bool := c == ' ' || c == '\t'

def skipBlanks (text : List Char) : List Char := text.dropWhile isBlank

/-- The characters of comments and of strings on one line. -/
def isPlain (c : Char) : Bool := c == '\t' || (0x20 ≤ c.toNat && c.toNat != 0x7F)

/-- A text with its line ends as line feeds; a carriage return stands nowhere else. -/
def unifyLines? : List Char → Option (List Char)
  | [] => some []
  | '\r' :: '\n' :: rest => (unifyLines? rest).map ('\n' :: ·)
  | c :: rest => if c = '\r' then none else (unifyLines? rest).map (c :: ·)

end ServiceDirectory.Toml
