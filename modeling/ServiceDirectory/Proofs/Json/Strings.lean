import ServiceDirectory.Json.Printer
import ServiceDirectory.Json.Reader

/-!
# String literals are read as they were spelled

A character of a string literal stands for itself, or is spelled as an escape of one
letter or as one or two escaped units. The literal is read piece by piece, whichever
spelling each of them has. What is written is one of the spellings: a control
character without a short escape becomes a unit, every other character one piece.
-/

namespace ServiceDirectory.Json

open Text (Symbol)

/-- What reading makes of an escaped character. -/
def pieceOf (c : Char) : Piece :=
  if (shortEscapes.lookup c).isNone ∧ c.toNat < 0x20 then .unit c.toNat else .char c

theorem hexValue_digitChar {d : Nat} (h : d < 16) : hexValue (Nat.digitChar d) = some d := by
  have hall : ∀ d, d < 16 → hexValue (Nat.digitChar d) = some d := by decide
  exact hall d h

theorem hexNat?_escape {n : Nat} (h : n < 0x20) :
    hexNat? [some '0', some '0', some (Nat.digitChar (n / 16)), some (Nat.digitChar (n % 16))] =
      some n := by
  have hzero : hexValue '0' = some 0 := by decide
  have hhigh := hexValue_digitChar (d := n / 16) (by omega)
  have hlow := hexValue_digitChar (d := n % 16) (by omega)
  simp only [hexNat?, List.foldlM_cons, List.foldlM_nil, Option.bind_some, hzero, hhigh, hlow,
    Option.map_some, bind, pure]
  congr 1
  omega

/-- How the pieces of a string literal are spelled between its quotes. -/
inductive BodySpelled : List Piece → List Char → Prop
  | nil : BodySpelled [] []
  | plain {c : Char} (hquote : c ≠ '"') (hslash : c ≠ '\\') (hcontrol : ¬ c.toNat < 0x20)
      {pieces : List Piece} {text : List Char} (h : BodySpelled pieces text) :
      BodySpelled (.char c :: pieces) (c :: text)
  | short {letter c : Char} (hescape : (letter, c) ∈ escapes) {pieces : List Piece}
      {text : List Char} (h : BodySpelled pieces text) :
      BodySpelled (.char c :: pieces) ('\\' :: letter :: text)
  | unit {a b c d : Char} {n : Nat} (hdigits : hexNat? [some a, some b, some c, some d] = some n)
      {pieces : List Piece} {text : List Char} (h : BodySpelled pieces text) :
      BodySpelled (.unit n :: pieces) ('\\' :: 'u' :: a :: b :: c :: d :: text)

/-- How a string literal is spelled; `none` if its pieces are no text. -/
def StringSpelled (s : Option String) (text : List Char) : Prop :=
  ∃ pieces body, BodySpelled pieces body ∧ s = (characters? pieces).map String.ofList ∧
    text = '"' :: body ++ ['"']

/-- A literal is read up to its closing quote. -/
theorem literal_append {pieces : List Piece} {text : List Char} (h : BodySpelled pieces text)
    (rest : List Symbol) : literal (text.map some ++ some '"' :: rest) = some (pieces, rest) := by
  induction h with
  | nil =>
      change literal (some '"' :: rest) = _
      rw [literal.eq_def]
      rfl
  | plain hquote hslash hcontrol h ih =>
      rw [List.map_cons, List.cons_append, literal.eq_def]
      simp only [hquote, hslash, hcontrol, if_false, ih, Option.map_some]
  | @short letter c hescape pieces text h ih =>
      simp only [escapes, List.mem_cons, Prod.mk.injEq, List.not_mem_nil, or_false] at hescape
      have hread : literal (some '\\' :: some letter :: (text.map some ++ some '"' :: rest)) =
          (literal (text.map some ++ some '"' :: rest)).map fun r => (.char c :: r.1, r.2) := by
        rcases hescape with ⟨rfl, rfl⟩ | ⟨rfl, rfl⟩ | ⟨rfl, rfl⟩ | ⟨rfl, rfl⟩ | ⟨rfl, rfl⟩ |
          ⟨rfl, rfl⟩ | ⟨rfl, rfl⟩ | ⟨rfl, rfl⟩ <;> rfl
      rw [ih] at hread
      exact hread
  | unit hdigits h ih =>
      simp only [List.map_cons, List.cons_append, literal, hdigits, ih]
      rfl

/-- A character is escaped to a spelling of one piece. -/
theorem bodySpelled_escapeChar (c : Char) {pieces : List Piece} {text : List Char}
    (h : BodySpelled pieces text) : BodySpelled (pieceOf c :: pieces) (escapeChar c ++ text) := by
  rw [escapeChar, pieceOf]
  cases hshort : shortEscapes.lookup c with
  | some letter =>
      obtain ⟨before, after, heq, _⟩ := List.lookup_eq_some_iff.mp hshort
      have hmem : (c, letter) ∈ shortEscapes := by
        rw [heq]
        simp
      have hall : ∀ e ∈ shortEscapes, (e.2, e.1) ∈ escapes := by decide
      exact .short (hall _ hmem) h
  | none =>
      by_cases hcontrol : c.toNat < 0x20
      · simpa [hcontrol] using BodySpelled.unit (hexNat?_escape hcontrol) h
      · have hquote : c ≠ '"' := by
          rintro rfl
          exact absurd hshort (by decide)
        have hslash : c ≠ '\\' := by
          rintro rfl
          exact absurd hshort (by decide)
        simpa [hcontrol] using BodySpelled.plain hquote hslash hcontrol h

theorem bodySpelled_escape (text : List Char) :
    BodySpelled (text.map pieceOf) (text.flatMap escapeChar) := by
  induction text with
  | nil => exact .nil
  | cons c text ih =>
      rw [List.map_cons, List.flatMap_cons]
      exact bodySpelled_escapeChar c ih

theorem characters?_pieceOf (text : List Char) :
    characters? (text.map pieceOf) = some text := by
  induction text with
  | nil => rfl
  | cons c text ih =>
      rw [List.map_cons, pieceOf]
      split
      · rename_i h
        have hhigh : isHighSurrogate c.toNat = false := by
          simp only [isHighSurrogate, Bool.and_eq_false_iff, decide_eq_false_iff_not]
          omega
        have hlow : isLowSurrogate c.toNat = false := by
          simp only [isLowSurrogate, Bool.and_eq_false_iff, decide_eq_false_iff_not]
          omega
        rw [characters?.eq_def]
        simp [hhigh, hlow, ih, Char.ofNat_toNat]
      · rw [characters?.eq_def]
        simp [ih]

theorem stringSpelled_quoted (s : String) : StringSpelled (some s) (quoted s) := by
  refine ⟨_, _, bodySpelled_escape s.toList, ?_, rfl⟩
  rw [characters?_pieceOf, Option.map_some, String.ofList_toList]

end ServiceDirectory.Json
