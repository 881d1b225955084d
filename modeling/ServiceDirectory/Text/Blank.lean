/-!
# White space and trimming

The characters with the Unicode property White_Space, and trimming by them.
The ASCII notion of core is smaller: a no-break space or an ideographic space
is blank here.
-/

namespace ServiceDirectory.Text

/-- The ranges of code points with the property White_Space. -/
def blankRanges : List (Nat × Nat) :=
  [(0x09, 0x0D), (0x20, 0x20), (0x85, 0x85), (0xA0, 0xA0), (0x1680, 0x1680), (0x2000, 0x200A),
    (0x2028, 0x2029), (0x202F, 0x202F), (0x205F, 0x205F), (0x3000, 0x3000)]

def isBlank (c : Char) : Bool :=
  blankRanges.any fun r => r.1 ≤ c.toNat && c.toNat ≤ r.2

/-- Leading blanks removed. -/
def trimStart (s : List Char) : List Char := s.dropWhile isBlank

/-- Leading and trailing blanks removed. -/
def trim (s : List Char) : List Char := (trimStart (trimStart s).reverse).reverse

/-- A text of blanks only, the empty text included. -/
def allBlank (s : String) : Bool := s.toList.all isBlank

/-- Whether a character list has no blank at either end. -/
def Trimmed (s : List Char) : Prop :=
  (∀ c ∈ s.head?, isBlank c = false) ∧ (∀ c ∈ s.getLast?, isBlank c = false)

/-- The parts between the separators, trimmed, without the empty ones. -/
def parts (sep : Char) (s : String) : List String :=
  (((s.toList.splitOn sep).map trim).filter (!·.isEmpty)).map String.ofList

/-- Texts joined by a separator. -/
def join (sep : Char) (texts : List String) : String :=
  String.ofList ([sep].intercalate (texts.map String.toList))

end ServiceDirectory.Text
