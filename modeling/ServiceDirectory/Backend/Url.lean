import ServiceDirectory.Net.Address
import ServiceDirectory.Text.Form

/-!
# Web addresses

A web address is read into its host, port, path and query; what is no character
of a path or query is escaped, and dot segments are resolved. Relative ones are
resolved against another address. Fragments and user names are passed over. Names
of hosts end up in ASCII; how those get there that are written in other letters is
a parameter.
-/

namespace ServiceDirectory

namespace Url

inductive Host where
  | name (text : String)
  | address (host : Net.Host)
  deriving DecidableEq

/-- How names of hosts are written in ASCII and small letters, those that can be. -/
abbrev HostNames := String → Option String

/-- Names that are ASCII already, and no others. -/
def HostNames.ascii : HostNames := fun name =>
  if name.toList.all (·.toNat < 0x80) then some (String.ofList (name.toList.map Char.toLower))
  else none

end Url

structure Url where
  isSecure : Bool
  host : Url.Host
  /-- The port, unless it is the usual one. -/
  port : Option UInt16 := none
  /-- The segments of the path, of which there is at least one. -/
  path : List String
  query : Option String := none
  deriving DecidableEq

/-- What an address leads to. -/
inductive Destination where
  | web (url : Url)
  /-- Something that is not asked by HTTP. -/
  | foreign
  deriving DecidableEq

namespace Url

/-! ## Cutting -/

def isControlOrSpace (c : Char) : Bool := c.toNat ≤ 0x20

/-- Without blanks at the ends, without tabs and line ends, without fragment. -/
def clean (text : String) : List Char :=
  let started := text.toList.dropWhile isControlOrSpace
  let trimmed := (started.reverse.dropWhile isControlOrSpace).reverse
  (trimmed.filter fun c => c != '\t' && c != '\n' && c != '\r').takeWhile (· != '#')

def isSlash (c : Char) : Bool := c == '/' || c == '\\'

/-- The scheme that a text starts with, and what follows its colon. -/
def scheme? (text : List Char) : Option (String × List Char) :=
  let name := text.takeWhile fun c => c.isAlphanum || c == '+' || c == '-' || c == '.'
  match name.head?, text.drop name.length with
  | some c, ':' :: rest =>
    if c.isAlpha then some (String.ofList (name.map Char.toLower), rest) else none
  | _, _ => none

/-- What stands before and after the first question mark. -/
def splitQuery (text : List Char) : List Char × Option (List Char) :=
  match text.dropWhile (· != '?') with
  | [] => (text, none)
  | _ :: query => (text.takeWhile (· != '?'), some query)

/-! ## Escaping -/

def escapeChar (special : List Char) (c : Char) : List Char :=
  if c.toNat ≤ 0x20 ∨ 0x7F ≤ c.toNat ∨ special.contains c then
    (String.utf8EncodeChar c).flatMap Text.escapeByte
  else [c]

/-- The characters that are escaped in a path, beside blanks and what is not ASCII. -/
def pathSpecials : List Char := ['"', '#', '<', '>', '?', '\x60', '\x7b', '\x7d']

/-- The characters that are escaped in a query, beside blanks and what is not ASCII. -/
def querySpecials : List Char := ['"', '#', '<', '>', '\'']

def escapePath (text : List Char) : String := String.ofList (text.flatMap (escapeChar pathSpecials))

def escapeQuery (text : List Char) : String :=
  String.ofList (text.flatMap (escapeChar querySpecials))

/-! ## Paths -/

/-- A segment with escaped points written out, in small letters. -/
def unescapePoints : List Char → List Char
  | '%' :: '2' :: 'e' :: rest | '%' :: '2' :: 'E' :: rest => '.' :: unescapePoints rest
  | c :: rest => c :: unescapePoints rest
  | [] => []

/-- Put a segment at the end of a path; `more` says whether another one follows. -/
def push (path : List String) (segment : List Char) (more : Bool) : List String :=
  let points := unescapePoints segment
  if points = ['.', '.'] then if more then path.dropLast else path.dropLast ++ [""]
  else if points = ['.'] then if more then path else path ++ [""]
  else path ++ [escapePath segment]

/-- Put segments at the end of a path. -/
def pushAll (path : List String) : List (List Char) → List String
  | [] => path
  | [segment] => push path segment false
  | segment :: rest => pushAll (push path segment true) rest

/-- The path that is reached by a text from another path. -/
def walk (path : List String) (text : List Char) : List String :=
  pushAll path ((text.map fun c => if c == '\\' then '/' else c).splitOn '/')

/-! ## Authorities -/

/-- The characters that no name of a host has. -/
def hostSpecials : List Char :=
  ['#', '/', ':', '<', '>', '?', '@', '[', '\\', ']', '^', '|', '%', '\x7F']

def isHostChar (c : Char) : Bool := 0x20 < c.toNat && c.toNat < 0x80 && !hostSpecials.contains c

/-- Whether the last label of a host is a number, so that the host has to be an address. -/
def endsInNumber (labels : List (List Char)) : Bool :=
  match labels.getLast? with
  | none => false
  | some label =>
    (!label.isEmpty && label.all Char.isDigit) ||
      (['0', 'x'].isPrefixOf (label.map Char.toLower) && (Net.number? label).isSome)

/-- The labels of a host; one point may stand at its end. -/
def labels (text : List Char) : List (List Char) :=
  let all := text.splitOn '.'
  if 2 ≤ all.length ∧ all.getLast? = some [] then all.dropLast else all

def host? (names : HostNames) (text : List Char) : Option Host :=
  match Net.bracketed? text with
  | some inner => (Net.ipv6? inner).map (.address <| .ipv6 ·)
  | none => do
    let decoded ← Text.Utf8.text? (Text.percentDecode (Text.Utf8.encode (String.ofList text)))
    let name ← names decoded
    let parts := labels name.toList
    if name.isEmpty ∨ !name.toList.all isHostChar then none
    else if endsInNumber parts then
      ((parts.mapM Net.number?).bind Net.ipv4OfNumbers?).map (.address <| .ipv4 ·)
    else some (.name name)

/-- The end of a host: its closing bracket, or the first colon. -/
def splitHost (text : List Char) : List Char × List Char :=
  match text with
  | '[' :: _ =>
    let host := text.takeWhile (· != ']')
    (text.take (host.length + 1), text.drop (host.length + 1))
  | _ => (text.takeWhile (· != ':'), text.dropWhile (· != ':'))

/-- A port after its colon, none if it is the usual one or left out. -/
def portAfter? (isSecure : Bool) (text : List Char) : Option (Option UInt16) :=
  match text with
  | [] | [':'] => some none
  | ':' :: digits =>
    (Net.port? digits).map fun p => if p = (if isSecure then 443 else 80) then none else some p
  | _ => none

/-- A host and a port, behind a user name that does not count. -/
def authority? (names : HostNames) (isSecure : Bool) (text : List Char) :
    Option (Host × Option UInt16) := do
  let (host, port) := splitHost ((text.splitOn '@').getLast?.getD [])
  some (← host? names host, ← portAfter? isSecure port)

/-! ## Reading -/

/-- An address after its scheme. -/
def absolute? (names : HostNames) (isSecure : Bool) (text : List Char) : Option Url := do
  let text := text.dropWhile isSlash
  let ends (c : Char) : Bool := isSlash c || c == '?'
  let (host, port) ← authority? names isSecure (text.takeWhile fun c => !ends c)
  let (path, query) := splitQuery (text.dropWhile fun c => !ends c)
  some { isSecure, host, port, path := walk [] (path.drop 1), query := query.map escapeQuery }

/-- An address without a scheme, seen from another one. -/
def relative? (names : HostNames) (base : Url) (text : List Char) : Option Url :=
  let (path, query) := splitQuery text
  let query := query.map escapeQuery
  match path with
  | [] => some { base with query := query.or (if text.isEmpty then base.query else none) }
  | c :: rest =>
    if isSlash c then
      if rest.head?.any isSlash then absolute? names base.isSecure text
      else some { base with path := walk [] rest, query }
    else some { base with path := walk base.path.dropLast path, query }

/-- Where an address leads, seen from another one if there is one. -/
def resolve? (names : HostNames) (base : Option Url) (text : String) : Option Destination :=
  let text := clean text
  match scheme? text with
  | none => (base.bind (relative? names · text)).map .web
  | some (scheme, rest) =>
    if scheme = "http" ∨ scheme = "https" then
      let isSecure := scheme == "https"
      match base with
      | some base =>
        -- Without slashes, an address of the same scheme is a relative one.
        if base.isSecure = isSecure ∧ ['/', '/'].isPrefixOf rest = false then
          (relative? names base rest).map .web
        else (absolute? names isSecure rest).map .web
      | none => (absolute? names isSecure rest).map .web
    else some .foreign

/-! ## Writing -/

/-- The path and query, as a request asks for them. -/
def target (url : Url) : String :=
  let path := String.ofList ('/' :: ['/'].intercalate (url.path.map String.toList))
  match url.query with
  | none => path
  | some query => path ++ "?" ++ query

/-- The address with more names and values in its query. -/
def withForm (url : Url) (pairs : List (String × String)) : Url :=
  let form := Text.Form.encode pairs
  let query :=
    match url.query with
    | none => form
    | some query => if query.isEmpty then form else query ++ "&" ++ form
  { url with query := if query.isEmpty then none else some query }

end Url

end ServiceDirectory
