import ServiceDirectory.Toml.Scalar
import ServiceDirectory.Toml.Table

/-!
# TOML documents

A document is read line by line: entries, and headers that say which table the
entries after them belong to. Values and keys nest less than eighty deep.
-/

namespace ServiceDirectory.Toml

/-- Nesting of this depth is refused. -/
def depthLimit : Nat := 80

/-! ## Keys -/

def isBare (c : Char) : Bool := c.isAlphanum || c == '_' || c == '-'

/-- One part of a key, bare or quoted. -/
def simpleKey? (text : List Char) : Option (String × List Char) :=
  match text with
  | [] => none
  | c :: _ =>
    if c = '"' ∨ c = '\'' then lineString? text
    else
      let name := text.takeWhile isBare
      if name.isEmpty then none else some (String.ofList name, text.dropWhile isBare)

/-- At most `fuel` parts of a key with points between them. -/
def keyWithin : Nat → List Char → Option (List String × List Char)
  | 0, _ => none
  | fuel + 1, text =>
    match simpleKey? (skipBlanks text) with
    | none => none
    | some (name, rest) =>
      match skipBlanks rest with
      | '.' :: rest => (keyWithin fuel rest).map fun r => (name :: r.1, r.2)
      | rest => some ([name], rest)

/-- A key with the blanks around it: the names on the way, and the last name. -/
def key? (text : List Char) : Option ((List String × String) × List Char) :=
  match keyWithin text.length text with
  | some (names, rest) =>
    if depthLimit ≤ names.length then none
    else names.getLast?.map fun last => ((names.dropLast, last), rest)
  | none => none

/-! ## Values -/

/-- Without a comment that it may start with. -/
def dropComment? (text : List Char) : Option (List Char) :=
  match text with
  | '#' :: rest =>
    if (rest.takeWhile (· != '\n')).all isPlain then some (rest.dropWhile (· != '\n')) else none
  | _ => some text

/-- Without blanks, comments and line ends, by at most `fuel` lines. -/
def skipLinesWithin : Nat → List Char → Option (List Char)
  | 0, text => some text
  | fuel + 1, text =>
    match skipBlanks text with
    | '\n' :: rest => skipLinesWithin fuel rest
    | '#' :: rest =>
      match dropComment? ('#' :: rest) with
      | some ('\n' :: rest) => skipLinesWithin fuel rest
      | _ => none
    | rest => some rest

def skipLines? (text : List Char) : Option (List Char) := skipLinesWithin text.length text

/-- The items of an array and its closing bracket, at most `fuel` items. -/
def itemsWithin (item : Reader Value) : Nat → List Char → Option (List Value × List Char)
  | 0, _ => none
  | fuel + 1, text =>
    match skipLines? text with
    | none => none
    | some (']' :: rest) => some ([], rest)
    | some text =>
      match item text with
      | none => none
      | some (value, rest) =>
        match skipLines? rest with
        | some (',' :: rest) => (itemsWithin item fuel rest).map fun r => (value :: r.1, r.2)
        | some (']' :: rest) => some ([value], rest)
        | _ => none

/-- A key, an equals sign and a value. -/
def pair? (value : Reader Value) (text : List Char) : Option (Entry × List Char) :=
  match key? text with
  | some ((path, key), '=' :: rest) =>
    (value (skipBlanks rest)).map fun r => (⟨path, key, r.1⟩, r.2)
  | _ => none

/-- The entries between braces after the opening one, at least one and at most `fuel`. -/
def bracedWithin (value : Reader Value) : Nat → List Char → Option (List Entry × List Char)
  | 0, _ => none
  | fuel + 1, text =>
    match pair? value text with
    | none => none
    | some (e, rest) =>
      match skipBlanks rest with
      | ',' :: rest => (bracedWithin value fuel rest).map fun r => (e :: r.1, r.2)
      | '}' :: rest => some ([e], rest)
      | _ => none

/-- A table in braces after the opening one. -/
def braced? (value : Reader Value) (text : List Char) : Option (Value × List Char) :=
  match skipBlanks text with
  | '}' :: rest => some (.table .braces [], rest)
  | text => do
    let (entries, rest) ← bracedWithin value text.length text
    let members ← insertAll entries []
    some (.table .braces members, rest)

/-- A value with arrays and tables up to a depth. -/
def value? : Nat → Reader Value
  | 0, text => scalar? text
  | depth + 1, text =>
    match text with
    | '[' :: rest =>
      (itemsWithin (value? depth) rest.length rest).map fun r => (.array r.1, r.2)
    | '{' :: rest => braced? (value? depth) rest
    | _ => scalar? text

/-! ## Lines -/

/-- What a line says, if it says anything. -/
inductive Line where
  | entry (entry : Entry)
  /-- The entries that follow belong to a table. -/
  | table (path : List String) (key : String)
  /-- The entries that follow belong to one more table of this name. -/
  | tables (path : List String) (key : String)

/-- The end of a line: blanks, perhaps a comment, and a line end or the end of the text. -/
def lineEnd? (text : List Char) : Option (List Char) :=
  match dropComment? (skipBlanks text) with
  | some ('\n' :: rest) => some rest
  | some [] => some []
  | _ => none

def line? (text : List Char) : Option (Line × List Char) :=
  match text with
  | '[' :: '[' :: rest =>
    match key? rest with
    | some ((path, key), ']' :: ']' :: rest) => some (.tables path key, rest)
    | _ => none
  | '[' :: rest =>
    match key? rest with
    | some ((path, key), ']' :: rest) => some (.table path key, rest)
    | _ => none
  | _ => (pair? (value? (depthLimit - 1)) text).map fun r => (.entry r.1, r.2)

/-- What the lines of a text say, at most `fuel` lines. -/
def linesWithin : Nat → List Char → Option (List Line)
  | 0, _ => none
  | fuel + 1, text =>
    match skipBlanks text with
    | [] => some []
    | '\n' :: rest => linesWithin fuel rest
    | '#' :: rest =>
      match lineEnd? ('#' :: rest) with
      | some rest => linesWithin fuel rest
      | none => none
    | text =>
      match line? text with
      | none => none
      | some (line, rest) =>
        match lineEnd? rest with
        | some rest => (linesWithin fuel rest).map (line :: ·)
        | none => none

def lines? (text : List Char) : Option (List Line) := linesWithin (text.length + 1) text

/-! ## Documents -/

/-- The entries that follow, and the lines from the next header on. -/
def entriesBefore : List Line → List Entry × List Line
  | .entry e :: rest => (e :: (entriesBefore rest).1, (entriesBefore rest).2)
  | rest => ([], rest)

/-- Add what headers and the entries after them say. -/
def addSections : List Line → Members → Option Members
  | [], members => some members
  | line :: rest, members =>
    let entries := (entriesBefore rest).1
    match line with
    | .table path key => (changeAt key (openTable entries) path members).bind (addSections rest)
    | .tables path key => (changeAt key (appendTable entries) path members).bind (addSections rest)
    | .entry _ => addSections rest members

/-- The table that lines describe. -/
def ofLines? (lines : List Line) : Option Members :=
  let (entries, sections) := entriesBefore lines
  (insertAll entries []).bind (addSections sections)

/-- Without a byte order mark at its start. -/
def dropMark : List Char → List Char
  | c :: rest => if c = '\uFEFF' then rest else c :: rest
  | [] => []

/-- The table that a document is. -/
def parse? (text : String) : Option Members := do
  let text ← unifyLines? (dropMark text.toList)
  ofLines? (← lines? text)

end ServiceDirectory.Toml
