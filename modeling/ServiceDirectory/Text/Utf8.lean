/-!
# UTF-8

Bytes are read as a list of symbols: a character, or the absence of one for
every maximal piece that begins no character. Texts are the symbol lists without
such pieces; in a lenient reading each piece becomes one replacement character.
-/

namespace ServiceDirectory.Text

/-- A character, or `none` for bytes that spell none. -/
abbrev Symbol := Option Char

/-- The symbols of a text. -/
def symbols (s : String) : List Symbol := s.toList.map some

/-- The text of symbols that all are characters. -/
def ofSymbols? (symbols : List Symbol) : Option String :=
  (symbols.mapM id).map String.ofList

/-- The text of symbols, with U+FFFD for what is no character. -/
def ofSymbolsLossy (symbols : List Symbol) : String :=
  String.ofList (symbols.map (·.getD '\uFFFD'))

namespace Utf8

/-- How many bytes follow a leading byte, and the range of the first of them. -/
def lead (b : UInt8) : Option (Nat × UInt8 × UInt8) :=
  if 0xC2 ≤ b && b ≤ 0xDF then some (1, 0x80, 0xBF)
  else if b == 0xE0 then some (2, 0xA0, 0xBF)
  else if b == 0xED then some (2, 0x80, 0x9F)
  else if 0xE1 ≤ b && b ≤ 0xEF then some (2, 0x80, 0xBF)
  else if b == 0xF0 then some (3, 0x90, 0xBF)
  else if 0xF1 ≤ b && b ≤ 0xF3 then some (3, 0x80, 0xBF)
  else if b == 0xF4 then some (3, 0x80, 0x8F)
  else none

/-- The bits of a leading byte that belong to the code point. -/
def leadBits (b : UInt8) : Nat :=
  if b < 0xE0 then b.toNat % 0x20 else if b < 0xF0 then b.toNat % 0x10 else b.toNat % 0x08

def tailBits (b : UInt8) : Nat := b.toNat % 0x40

/-- A character that has begun: the bits read, the bytes still due, and the range of the next. -/
structure Pending where
  bits : Nat
  due : Nat
  low : UInt8
  high : UInt8

/-- A byte read between characters: what it settles, and the character it begins. -/
def begin (b : UInt8) : List Symbol × Option Pending :=
  if b < 0x80 then ([some (Char.ofNat b.toNat)], none)
  else
    match lead b with
    | some (due, low, high) => ([], some ⟨leadBits b, due, low, high⟩)
    | none => ([none], none)

/--
A byte read while `p` is pending. A byte that does not continue the character
closes the piece as no character and is then read afresh.
-/
def resume (p : Pending) (b : UInt8) : List Symbol × Option Pending :=
  if p.low ≤ b && b ≤ p.high then
    let bits := p.bits * 0x40 + tailBits b
    if p.due ≤ 1 then ([some (Char.ofNat bits)], none)
    else ([], some ⟨bits, p.due - 1, 0x80, 0xBF⟩)
  else
    let fresh := begin b
    (none :: fresh.1, fresh.2)

/-- Reads bytes with at most one character begun; one left unfinished is no character. -/
def read : Option Pending → List UInt8 → List Symbol
  | none, [] => []
  | some _, [] => [none]
  | none, b :: rest => (begin b).1 ++ read (begin b).2 rest
  | some p, b :: rest => (resume p b).1 ++ read (resume p b).2 rest

/-- The symbols that bytes spell. -/
def decode (bytes : List UInt8) : List Symbol := read none bytes

/-- The bytes of a text. -/
def encode (s : String) : List UInt8 := s.toList.flatMap String.utf8EncodeChar

/-- The text that bytes spell, if they spell one. -/
def text? (bytes : List UInt8) : Option String := ofSymbols? (decode bytes)

/-- The text that bytes spell, with a replacement character for each piece that is no character. -/
def textLossy (bytes : List UInt8) : String := ofSymbolsLossy (decode bytes)

end Utf8

end ServiceDirectory.Text
