import ServiceDirectory.Json.Reader

/-!
# Numerals are read as they were spelled

An exponent may have either mark, and a sign that it does not need; all else of a
numeral has one spelling. From any of its spellings a well-formed numeral is read
back, whatever follows, as long as what follows does not continue it.
-/

namespace ServiceDirectory

namespace Numeral

def fractionSpelling (fraction : List Char) : List Char :=
  if fraction.isEmpty then [] else '.' :: fraction

/-- How an exponent is spelled: with either mark, and a plus sign may be left out. -/
inductive ExponentSpelled : Option (Bool × List Char) → List Char → Prop
  | none : ExponentSpelled none []
  | signed {mark : Char} (hmark : mark = 'e' ∨ mark = 'E') (negative : Bool)
      (digits : List Char) :
      ExponentSpelled (some (negative, digits))
        (mark :: (if negative then '-' else '+') :: digits)
  | plain {mark : Char} (hmark : mark = 'e' ∨ mark = 'E') (digits : List Char) :
      ExponentSpelled (some (false, digits)) (mark :: digits)

/-- How a numeral is spelled without its sign. -/
def UnsignedSpelled (n : Numeral) (text : List Char) : Prop :=
  ∃ exponent, ExponentSpelled n.exponent exponent ∧
    text = n.whole ++ fractionSpelling n.fraction ++ exponent

/-- How a numeral is spelled; one that is not well formed has no spelling. -/
def Spelled (n : Numeral) (text : List Char) : Prop :=
  n.WellFormed ∧ ∃ unsigned, n.UnsignedSpelled unsigned ∧
    text = (if n.negative then ['-'] else []) ++ unsigned

theorem WellFormed.spelled_spell {n : Numeral} (h : n.WellFormed) : n.Spelled n.spell := by
  obtain ⟨exponent, hexponent, hspell⟩ : ∃ exponent, ExponentSpelled n.exponent exponent ∧
      n.spell = (if n.negative then ['-'] else []) ++ n.whole ++ fractionSpelling n.fraction ++
        exponent := by
    rw [spell]
    cases n.exponent with
    | none => exact ⟨_, .none, rfl⟩
    | some e => exact ⟨_, .signed (Or.inl rfl) e.1 e.2, rfl⟩
  refine ⟨h, _, ⟨exponent, hexponent, rfl⟩, ?_⟩
  rw [hspell, List.append_assoc, List.append_assoc, List.append_assoc]

/-- The number of a natural number's own numeral. -/
theorem natOfDigits_toDigits (n : Nat) : natOfDigits (Nat.toDigits 10 n) = n := by
  have h := @Nat.ofDigitChars_ten_toDigits n
  rw [Nat.ofDigitChars_eq_foldl] at h
  simpa only [natOfDigits, digitValue, Nat.mul_comm] using h

theorem natural?_ofNat (n : Nat) : (ofNat n).natural? = some n := by
  simp [natural?, ofNat, natOfDigits_toDigits]

/-- Only the digits of zero begin with a zero. -/
theorem head?_toDigits_ne_zero {n : Nat} (h : 0 < n) : (Nat.toDigits 10 n).head? ≠ some '0' := by
  induction n using Nat.strongRecOn with
  | _ n ih =>
      rw [Nat.toDigits_eq_if (by decide)]
      split
      · rename_i hlt
        have hall : ∀ n, n < 10 → 0 < n → [Nat.digitChar n].head? ≠ some '0' := by decide
        exact hall n hlt h
      · rename_i hle
        have hquot := ih (n / 10) (by omega) (by omega)
        rw [List.head?_append]
        cases hhead : (Nat.toDigits 10 (n / 10)).head? with
        | none => exact absurd (List.head?_eq_none_iff.mp hhead) Nat.toDigits_ne_nil
        | some c => simpa [hhead] using hquot

theorem isDigit_of_mem_toDigits {n : Nat} {c : Char} (h : c ∈ Nat.toDigits 10 n) :
    c.isDigit = true :=
  Nat.isDigit_of_mem_toDigits (by decide) (by decide) h

theorem wellFormed_ofNat (n : Nat) : (ofNat n).WellFormed := by
  refine ⟨Nat.toDigits_ne_nil, fun c hc => isDigit_of_mem_toDigits hc, ?_, by simp [ofNat],
    by simp [ofNat]⟩
  intro hzero
  rcases Nat.eq_zero_or_pos n with rfl | hpos
  · rfl
  · exact absurd hzero (head?_toDigits_ne_zero hpos)

end Numeral

namespace Json

open Text (Symbol)
open Numeral

/-- A character that goes on with a numeral. -/
def continuesNumeral (c : Char) : Bool := c.isDigit || c == '.' || c == 'e' || c == 'E'

/-- What follows does not go on with a numeral. -/
def EndsNumeral (rest : List Symbol) : Prop :=
  ∀ c, rest.head? = some (some c) → continuesNumeral c = false

/-- What follows does not begin with a digit. -/
def NoDigit (rest : List Symbol) : Prop := ∀ c, rest.head? = some (some c) → c.isDigit = false

theorem EndsNumeral.noDigit {rest : List Symbol} (h : EndsNumeral rest) : NoDigit rest := by
  intro c hc
  have hends := h c hc
  simp only [continuesNumeral, Bool.or_eq_false_iff] at hends
  exact hends.1.1.1

theorem takeWhile_append_of_noDigit {ds : List Char} {rest : List Symbol}
    (hd : ∀ c ∈ ds, c.isDigit = true) (hr : NoDigit rest) :
    (ds.map some ++ rest).takeWhile isDigitSymbol = ds.map some ∧
      (ds.map some ++ rest).dropWhile isDigitSymbol = rest := by
  have hall : ∀ s ∈ ds.map some, isDigitSymbol s = true := by
    intro s hs
    obtain ⟨c, hc, rfl⟩ := List.mem_map.mp hs
    exact hd c hc
  have hstop : rest.takeWhile isDigitSymbol = [] ∧ rest.dropWhile isDigitSymbol = rest := by
    cases rest with
    | nil => exact ⟨rfl, rfl⟩
    | cons s rest =>
        have hs : isDigitSymbol s = false := by
          cases s with
          | none => rfl
          | some c => exact hr c rfl
        simp [hs]
  rw [List.takeWhile_append_of_pos hall, List.dropWhile_append_of_pos hall, hstop.1, hstop.2]
  exact ⟨List.append_nil _, rfl⟩

theorem digits_append {ds : List Char} {rest : List Symbol} (hd : ∀ c ∈ ds, c.isDigit = true)
    (hr : NoDigit rest) : digits (ds.map some ++ rest) = (ds, rest) := by
  obtain ⟨htake, hdrop⟩ := takeWhile_append_of_noDigit hd hr
  simp [digits, htake, hdrop]

theorem exponentPart_append {e : Option (Bool × List Char)} {text : List Char}
    {rest : List Symbol} (hspelled : ExponentSpelled e text)
    (he : ∀ p ∈ e, p.2 ≠ [] ∧ ∀ c ∈ p.2, c.isDigit = true) (hr : EndsNumeral rest) :
    exponentPart (text.map some ++ rest) = some (e, rest) := by
  cases hspelled with
  | none =>
      cases rest with
      | nil => rfl
      | cons s rest =>
          cases s with
          | none => rfl
          | some c =>
              have hc := hr c rfl
              simp only [continuesNumeral, Bool.or_eq_false_iff, beq_eq_false_iff_ne] at hc
              simp [exponentPart, hc.1.2, hc.2]
  | signed hmark negative ds =>
      obtain ⟨hne, hds⟩ := he (negative, ds) rfl
      have hdigits := digits_append hds hr.noDigit
      cases negative <;> simp [exponentPart, hmark, hdigits, hne]
  | plain hmark ds =>
      obtain ⟨hne, hds⟩ := he (false, ds) rfl
      have hdigits := digits_append hds hr.noDigit
      obtain ⟨c, cs, rfl⟩ := List.exists_cons_of_ne_nil hne
      -- The first digit is no sign.
      have hc := hds c List.mem_cons_self
      have hminus : c ≠ '-' := by
        rintro rfl
        cases hc
      have hplus : c ≠ '+' := by
        rintro rfl
        cases hc
      rw [List.map_cons, List.cons_append] at hdigits
      simp [exponentPart, hmark, hdigits, hminus, hplus]

theorem fractionPart_append {fraction : List Char} {rest : List Symbol}
    (hf : ∀ c ∈ fraction, c.isDigit = true) (hdot : rest.head? ≠ some (some '.'))
    (hr : NoDigit rest) :
    fractionPart ((fractionSpelling fraction).map some ++ rest) = some (fraction, rest) := by
  cases fraction with
  | nil =>
      change fractionPart rest = _
      rw [fractionPart.eq_def]
      split
      · exact absurd rfl hdot
      · rfl
  | cons c fraction =>
      change fractionPart (some '.' :: ((c :: fraction).map some ++ rest)) = _
      simp only [fractionPart, digits_append hf hr]
      rfl

/-- What follows the fraction: the exponent, or what ends the numeral. -/
theorem noDigit_exponent {e : Option (Bool × List Char)} {text : List Char} {rest : List Symbol}
    (hspelled : ExponentSpelled e text) (hr : EndsNumeral rest) :
    (text.map some ++ rest).head? ≠ some (some '.') ∧ NoDigit (text.map some ++ rest) := by
  have hmarked : ∀ mark : Char, mark = 'e' ∨ mark = 'E' → ∀ more : List Char,
      ((mark :: more).map some ++ rest).head? ≠ some (some '.') ∧
        NoDigit ((mark :: more).map some ++ rest) := by
    rintro mark hmark more
    constructor
    · rcases hmark with rfl | rfl <;> simp
    · intro c hc
      obtain rfl : mark = c := by simpa using hc
      rcases hmark with rfl | rfl <;> rfl
  cases hspelled with
  | none =>
      refine ⟨fun hdot => ?_, hr.noDigit⟩
      have hends := hr '.' hdot
      cases hends
  | signed hmark negative ds => exact hmarked _ hmark _
  | plain hmark ds => exact hmarked _ hmark _

theorem noDigit_fractionSpelling (fraction : List Char) {rest : List Symbol}
    (hr : NoDigit rest) : NoDigit ((fractionSpelling fraction).map some ++ rest) := by
  cases fraction with
  | nil => exact hr
  | cons d fraction =>
      intro c hc
      obtain rfl : '.' = c := by simpa [fractionSpelling] using hc
      rfl

/-- A well-formed numeral is read back, up to where it ends. -/
theorem unsigned_append {n : Numeral} (h : n.WellFormed) {text : List Char}
    (hspelled : n.UnsignedSpelled text) {rest : List Symbol} (hr : EndsNumeral rest) :
    unsigned n.negative (text.map some ++ rest) = some (n, rest) := by
  obtain ⟨hne, hwhole, hzero, hfraction, hexponent⟩ := h
  obtain ⟨exponent, he, rfl⟩ := hspelled
  obtain ⟨hdot, hafter⟩ := noDigit_exponent he hr
  have hdigits := digits_append hwhole (noDigit_fractionSpelling n.fraction hafter)
  have hfractionPart := fractionPart_append hfraction hdot hafter
  have hexponentPart := exponentPart_append he hexponent hr
  have htext : (n.whole ++ fractionSpelling n.fraction ++ exponent).map some ++ rest =
      n.whole.map some ++
        ((fractionSpelling n.fraction).map some ++ (exponent.map some ++ rest)) := by
    simp
  rw [htext, unsigned]
  simp only [hdigits]
  split
  · -- a leading zero stands alone, so nothing is cut off after it
    rename_i heq
    have hone : n.whole = ['0'] := hzero (by rw [heq]; rfl)
    simp only [hone, List.map_cons, List.map_nil, List.cons_append, List.nil_append,
      List.drop_one, List.tail_cons, hfractionPart]
    simp [← hone, hne, hexponentPart]
  · simp [hne, hfractionPart, hexponentPart]

end Json

end ServiceDirectory
