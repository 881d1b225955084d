import ServiceDirectory.Decimal.Spelling
import ServiceDirectory.Text.Utf8

/-!
# JSON values

A value keeps what its text spells, in the order of the text: members of an
object are neither sorted nor merged, and a string literal that spells no text
(a lone surrogate, bytes that are no UTF-8) is kept as such. Reading a value into
a domain type decides what of this is acceptable.
-/

namespace ServiceDirectory

inductive Json where
  | null
  | bool (value : Bool)
  | number (numeral : Numeral)
  /-- A string literal; `none` if it spells no text. -/
  | string (text : Option String)
  | array (items : List Json)
  | object (members : List (Option String × Json))
  deriving Inhabited

namespace Json

/-- The pieces of JSON text between white space. -/
inductive Token where
  | openArray
  | closeArray
  | openObject
  | closeObject
  | comma
  | colon
  | null
  | bool (value : Bool)
  | number (numeral : Numeral)
  | string (text : Option String)
  deriving DecidableEq

def ofString (s : String) : Json := .string (some s)

def ofNat (n : Nat) : Json := .number (Numeral.ofNat n)

/-- A double; what is no finite number is `null`. -/
def ofDouble (x : Binary64) : Json :=
  match x.numeral? with
  | some n => .number n
  | none => .null

/-- An object with the given members in order. -/
def record (members : List (String × Json)) : Json :=
  .object (members.map fun m => (some m.1, m.2))

def text? : Json → Option String
  | .string s => s
  | _ => none

def bool? : Json → Option Bool
  | .bool b => some b
  | _ => none

/-- A natural number below a bound, written without point and exponent. -/
def natBelow? (bound : Nat) : Json → Option Nat
  | .number n => n.natural?.filter (· < bound)
  | _ => none

def double? : Json → Option Binary64
  | .number n => n.double?
  | _ => none

def items? : Json → Option (List Json)
  | .array items => some items
  | _ => none

/-- The members of an object all of whose keys are texts. -/
def members? : Json → Option (List (String × Json))
  | .object members => members.mapM fun m => m.1.map (·, m.2)
  | _ => none

end Json

end ServiceDirectory
