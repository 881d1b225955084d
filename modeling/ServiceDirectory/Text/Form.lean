import ServiceDirectory.Text.Utf8

/-!
# Percent and form encoding

A byte is escaped as a percent sign and two hexadecimal digits; an escape that is
malformed stands for itself. A form is a list of names and values joined by `=`
and `&`, in which a plus sign stands for a space and all but letters, digits and
four marks is escaped.
-/

namespace ServiceDirectory.Text

def hexDigit (n : Nat) : Char := Char.ofNat (if n < 10 then 0x30 + n else 0x41 + (n - 10))

/-- A byte as a percent escape. -/
def escapeByte (b : UInt8) : List Char := ['%', hexDigit (b.toNat / 16), hexDigit (b.toNat % 16)]

def hexByte? (b : UInt8) : Option Nat :=
  if 0x30 ≤ b && b ≤ 0x39 then some (b.toNat - 0x30)
  else if 0x41 ≤ b && b ≤ 0x46 then some (b.toNat - 0x41 + 10)
  else if 0x61 ≤ b && b ≤ 0x66 then some (b.toNat - 0x61 + 10)
  else none

/-- The byte that two hexadecimal digits stand for. -/
def hexPair? (high low : UInt8) : Option UInt8 := do
  let h ← hexByte? high
  let l ← hexByte? low
  some (UInt8.ofNat (h * 16 + l))

/-- Bytes with their percent escapes undone. -/
def percentDecode : List UInt8 → List UInt8
  | [] => []
  | [a] => [a]
  | [a, b] => [a, b]
  | a :: b :: c :: rest =>
    if a = 0x25 then
      match hexPair? b c with
      | some x => x :: percentDecode rest
      | none => a :: percentDecode (b :: c :: rest)
    else a :: percentDecode (b :: c :: rest)

namespace Form

/-- The bytes that stand for themselves. -/
def isPlain (b : UInt8) : Bool :=
  (0x30 ≤ b && b ≤ 0x39) || (0x41 ≤ b && b ≤ 0x5A) || (0x61 ≤ b && b ≤ 0x7A) ||
    b == 0x2A || b == 0x2D || b == 0x2E || b == 0x5F

def encodeByte (b : UInt8) : List Char :=
  if isPlain b then [Char.ofNat b.toNat] else if b == 0x20 then ['+'] else escapeByte b

/-- A name or value of a form. -/
def encodeText (s : String) : List Char := (Utf8.encode s).flatMap encodeByte

def encodePair (pair : String × String) : List Char :=
  encodeText pair.1 ++ '=' :: encodeText pair.2

/-- A form as text. -/
def encode (pairs : List (String × String)) : String :=
  String.ofList (['&'].intercalate (pairs.map encodePair))

/-- The text of an encoded name or value; bytes that are no UTF-8 are replaced. -/
def decodeBytes (bytes : List UInt8) : String :=
  Utf8.textLossy (percentDecode (bytes.map fun b => if b = 0x2B then 0x20 else b))

/-- The name up to the first `=`, and the value after it, empty without one. -/
def decodePair (bytes : List UInt8) : String × String :=
  (decodeBytes (bytes.takeWhile (· != 0x3D)), decodeBytes ((bytes.dropWhile (· != 0x3D)).drop 1))

/-- The names and values of a form; empty pieces count for nothing. -/
def decode (text : String) : List (String × String) :=
  (((Utf8.encode text).splitOn 0x26).filter (!·.isEmpty)).map decodePair

end Form

end ServiceDirectory.Text
