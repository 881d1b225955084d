import ServiceDirectory.Text.Blank
import ServiceDirectory.Text.Form

/-!
# Requests and responses

A request target is a path and a query. Paths are matched as they are written;
only the name in a path is decoded. Queries are forms of which some fields are
known: none of them may occur twice. A target that is too long for the server in
front is turned down there and does not come this far.
-/

namespace ServiceDirectory.Api

structure Request where
  method : String
  target : String
  deriving DecidableEq

structure Response where
  status : Nat
  contentType : Option String := none
  /-- The methods that a path allows, told where another one was used. -/
  allow : Option String := none
  body : String := ""
  deriving DecidableEq

/-! ## Targets -/

structure Target where
  path : String
  query : String := ""

/-- What follows scheme and authority, where a target has them. -/
def localPart (target : List Char) : List Char :=
  let rest := target.dropWhile Char.isAlphanum
  if [':', '/', '/'].isPrefixOf rest && rest.length < target.length then
    (rest.drop 3).dropWhile fun c => c != '/' && c != '?' && c != '#'
  else target

/-- A target without its fragment, cut at the first question mark. -/
def Target.ofString (target : String) : Target :=
  let text := (localPart target.toList).takeWhile (· != '#')
  { path := String.ofList (text.takeWhile (· != '?')),
    query := String.ofList ((text.dropWhile (· != '?')).drop 1) }

/-- What the paths of the interface lead to. -/
inductive Route where
  | push
  | services
  /-- One service, its name as written in the path. -/
  | service (name : String)
  | catalog
  deriving DecidableEq

/-- The route of a path; no other spelling of it leads there. -/
def route? (path : String) : Option Route :=
  match (path.toList.splitOn '/').map String.ofList with
  | ["", "v1", "push"] => some .push
  | ["", "v1", "services"] => some .services
  | ["", "v1", "services", name] => if name.isEmpty then none else some (.service name)
  | ["", "v1", "catalog"] => some .catalog
  | _ => none

/-! ## Queries -/

/-- Why a request is turned down. -/
inductive BadRequest where
  | missingField (name : String)
  | duplicateField (name : String)
  | notBool
  /-- A name in the path that is no UTF-8. -/
  | invalidName
  deriving DecidableEq

def BadRequest.message : BadRequest → String
  | .missingField name => "Failed to deserialize query string: missing field `" ++ name ++ "`"
  | .duplicateField name => "Failed to deserialize query string: duplicate field `" ++ name ++ "`"
  | .notBool =>
    "Failed to deserialize query string: provided string was not `true` or `false`"
  | .invalidName => "Invalid URL: Invalid UTF-8 in `name`"

def bool? (text : String) : Option Bool :=
  if text = "true" then some true else if text = "false" then some false else none

/-- The known fields of a query with their values. -/
abbrev Fields := List (String × String)

/--
Read the pairs of a query in order. Pairs with unknown names are passed over;
those named in `flags` have to be truth values.
-/
def readFields (known flags : List String) :
    List (String × String) → Fields → Except BadRequest Fields
  | [], fields => .ok fields
  | (name, value) :: rest, fields =>
    if known.contains name then
      if (fields.lookup name).isSome then .error (.duplicateField name)
      else if flags.contains name && (bool? value).isNone then .error .notBool
      else readFields known flags rest (fields ++ [(name, value)])
    else readFields known flags rest fields

def queryFields (known flags : List String) (query : String) : Except BadRequest Fields :=
  readFields known flags (Text.Form.decode query) []

/-- A field's value, empty if it is left out. -/
def Fields.text (fields : Fields) (name : String) : String := (fields.lookup name).getD ""

/-- The name in a path. -/
def decodeName (raw : String) : Except BadRequest String :=
  match Text.Utf8.text? (Text.percentDecode (Text.Utf8.encode raw)) with
  | some name => .ok name
  | none => .error .invalidName

end ServiceDirectory.Api
