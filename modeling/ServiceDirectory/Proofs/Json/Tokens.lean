import Mathlib.Data.List.Chain
import ServiceDirectory.Proofs.Json.Numerals
import ServiceDirectory.Proofs.Json.Strings

/-!
# Tokens are read as they were spelled

A text spells the tokens that it holds between white space, of which there may be
any amount and none. Cutting it up gives these tokens back. Only a numeral could run
on into what follows it, so it is enough that no two numerals stand side by side.
-/

namespace ServiceDirectory.Json

open Text (Symbol)
open Numeral

/-- A token that is read back from its spelling. -/
def Token.Spellable : Token → Prop
  | .number n => n.WellFormed
  | .string s => s.isSome = true
  | _ => True

/-- How a token is spelled. -/
def Token.Spelled : Token → List Char → Prop
  | .number n, text => n.Spelled text
  | .string s, text => StringSpelled s text
  | t, text => text = t.spell

/-- How tokens are spelled: one after another, with white space before, between and after them. -/
inductive Spaced : List Token → List Char → Prop
  | nil {space : List Char} (hspace : ∀ c ∈ space, isSpace c = true) : Spaced [] space
  | cons {space text rest : List Char} {t : Token} {tokens : List Token}
      (hspace : ∀ c ∈ space, isSpace c = true) (ht : t.Spelled text) (h : Spaced tokens rest) :
      Spaced (t :: tokens) (space ++ (text ++ rest))

def Token.isNumber : Token → Bool
  | .number _ => true
  | _ => false

theorem mark?_of_isDigit {c : Char} (h : c.isDigit = true) : mark? c = none := by
  unfold mark?
  split <;> first | rfl | (revert h; decide)

theorem Token.Spellable.spelled_spell {t : Token} (h : t.Spellable) : t.Spelled t.spell := by
  cases t with
  | number n => exact Numeral.WellFormed.spelled_spell h
  | string s =>
      obtain ⟨text, rfl⟩ := Option.isSome_iff_exists.mp h
      exact stringSpelled_quoted text
  | null => rfl
  | bool b => rfl
  | openArray => rfl
  | closeArray => rfl
  | openObject => rfl
  | closeObject => rfl
  | comma => rfl
  | colon => rfl

/-- The whole part of a numeral begins with a digit. -/
theorem exists_digit_of_unsignedSpelled {n : Numeral} (h : n.WellFormed) {text : List Char}
    (hspelled : n.UnsignedSpelled text) : ∃ c cs, text = c :: cs ∧ c.isDigit = true := by
  obtain ⟨exponent, _, rfl⟩ := hspelled
  obtain ⟨c, cs, hwhole⟩ := List.exists_cons_of_ne_nil h.1
  have hdigit : c.isDigit = true := h.2.1 c (by simp [hwhole])
  exact ⟨c, cs ++ fractionSpelling n.fraction ++ exponent, by simp [hwhole], hdigit⟩

/-- A numeral is spelled with a minus sign or a digit first. -/
theorem token?_number {n : Numeral} {text : List Char} (h : n.Spelled text) {rest : List Symbol}
    (hr : EndsNumeral rest) : token? (text.map some ++ rest) = some (.number n, rest) := by
  obtain ⟨hwell, u, hu, rfl⟩ := h
  have hunsigned := unsigned_append hwell hu hr
  cases hneg : n.negative with
  | true =>
      rw [hneg] at hunsigned
      change token? (some '-' :: (u.map some ++ rest)) = _
      simp [token?, mark?, hunsigned]
  | false =>
      rw [hneg] at hunsigned
      obtain ⟨c, cs, rfl, hdigit⟩ := exists_digit_of_unsignedSpelled hwell hu
      have hquote : c ≠ '"' := by
        rintro rfl
        cases hdigit
      have hminus : c ≠ '-' := by
        rintro rfl
        cases hdigit
      rw [List.map_cons, List.cons_append] at hunsigned
      simp only [Bool.false_eq_true, if_false, List.nil_append, List.map_cons, List.cons_append,
        token?, mark?_of_isDigit hdigit, hquote, hminus, hdigit, if_true, hunsigned,
        Option.map_some]

theorem token?_string {s : Option String} {text : List Char} (h : StringSpelled s text)
    (rest : List Symbol) : token? (text.map some ++ rest) = some (.string s, rest) := by
  obtain ⟨pieces, body, hbody, rfl, rfl⟩ := h
  have hliteral := literal_append hbody rest
  have htext : ('"' :: body ++ ['"']).map some ++ rest =
      some '"' :: (body.map some ++ some '"' :: rest) := by
    simp
  rw [htext, token?]
  simp [mark?, hliteral]

/-- A token is read from its spelling, and only a numeral minds what follows. -/
theorem token?_spelled {t : Token} {text : List Char} (ht : t.Spelled text) {rest : List Symbol}
    (hr : t.isNumber = true → EndsNumeral rest) :
    token? (text.map some ++ rest) = some (t, rest) := by
  cases t with
  | number n => exact token?_number ht (hr rfl)
  | string s => exact token?_string ht rest
  | null =>
      obtain rfl := ht
      simp [token?, mark?, words, Token.spell]
  | bool b =>
      obtain rfl := ht
      cases b <;> simp [token?, mark?, words, Token.spell]
  | openArray => exact ht ▸ rfl
  | closeArray => exact ht ▸ rfl
  | openObject => exact ht ▸ rfl
  | closeObject => exact ht ▸ rfl
  | comma => exact ht ▸ rfl
  | colon => exact ht ▸ rfl

/-- The first character of a token is no white space, and only a numeral's goes on with one. -/
theorem spelled_eq_cons {t : Token} {text : List Char} (ht : t.Spelled text) :
    ∃ c cs, text = c :: cs ∧ isSpace c = false ∧
      (t.isNumber = false → continuesNumeral c = false) := by
  cases t with
  | number n =>
      have hdigit : ∀ c : Char, c.isDigit = true → isSpace c = false := by
        intro c hc
        simp only [isSpace, Bool.or_eq_false_iff, beq_eq_false_iff_ne]
        refine ⟨⟨⟨?_, ?_⟩, ?_⟩, ?_⟩ <;> (rintro rfl; cases hc)
      obtain ⟨hwell, u, hu, rfl⟩ := ht
      cases n.negative with
      | true => exact ⟨'-', _, rfl, rfl, by simp [Token.isNumber]⟩
      | false =>
          obtain ⟨c, cs, rfl, hc⟩ := exists_digit_of_unsignedSpelled hwell hu
          exact ⟨c, cs, rfl, hdigit c hc, by simp [Token.isNumber]⟩
  | string s =>
      obtain ⟨pieces, body, _, _, rfl⟩ := ht
      exact ⟨'"', _, rfl, rfl, fun _ => rfl⟩
  | null => exact ⟨'n', _, ht, rfl, fun _ => rfl⟩
  | bool b =>
      cases b with
      | true => exact ⟨'t', _, ht, rfl, fun _ => rfl⟩
      | false => exact ⟨'f', _, ht, rfl, fun _ => rfl⟩
  | openArray => exact ⟨'[', _, ht, rfl, fun _ => rfl⟩
  | closeArray => exact ⟨']', _, ht, rfl, fun _ => rfl⟩
  | openObject => exact ⟨'{', _, ht, rfl, fun _ => rfl⟩
  | closeObject => exact ⟨'}', _, ht, rfl, fun _ => rfl⟩
  | comma => exact ⟨',', _, ht, rfl, fun _ => rfl⟩
  | colon => exact ⟨':', _, ht, rfl, fun _ => rfl⟩

/-- Of two tokens side by side at most one is a numeral. -/
def Apart (tokens : List Token) : Prop :=
  tokens.IsChain fun a b => a.isNumber = false ∨ b.isNumber = false

/-- White space does not go on with a numeral. -/
theorem continuesNumeral_of_isSpace {c : Char} (h : isSpace c = true) :
    continuesNumeral c = false := by
  simp only [isSpace, Bool.or_eq_true, beq_iff_eq] at h
  rcases h with ((rfl | rfl) | rfl) | rfl <;> rfl

/-- What is spelled after a numeral does not go on with it. -/
theorem endsNumeral_of_apart {t : Token} {tokens : List Token} (ha : Apart (t :: tokens))
    (ht : t.isNumber = true) {text : List Char} (h : Spaced tokens text) :
    EndsNumeral (text.map some) := by
  intro d hd
  cases h with
  | nil hspace =>
      obtain ⟨c, hc, hcd⟩ := List.mem_map.mp (List.mem_of_mem_head? hd)
      obtain rfl := Option.some.inj hcd
      exact continuesNumeral_of_isSpace (hspace c hc)
  | @cons space text rest u tokens hspace hu h =>
      cases space with
      | cons c space =>
          obtain rfl : c = d := by simpa using hd
          exact continuesNumeral_of_isSpace (hspace c List.mem_cons_self)
      | nil =>
          obtain ⟨c, cs, rfl, _, hends⟩ := spelled_eq_cons hu
          have hnumber : u.isNumber = false := by
            rcases (List.isChain_cons_cons.mp ha).1 with h | h
            · rw [ht] at h
              cases h
            · exact h
          obtain rfl : c = d := by simpa using hd
          exact hends hnumber

theorem tokensWithin_space {space : List Char} (hspace : ∀ c ∈ space, isSpace c = true)
    (rest : List Symbol) (fuel : Nat) :
    tokensWithin (space.length + fuel) (space.map some ++ rest) = tokensWithin fuel rest := by
  induction space with
  | nil => rw [List.length_nil, Nat.zero_add, List.map_nil, List.nil_append]
  | cons c space ih =>
      have hc : isSpace c = true := hspace c List.mem_cons_self
      have hfuel : (c :: space).length + fuel = (space.length + fuel) + 1 := by
        rw [List.length_cons]
        omega
      rw [hfuel, List.map_cons, List.cons_append, tokensWithin, Option.any_some, hc, if_pos rfl]
      exact ih fun d hd => hspace d (List.mem_cons_of_mem _ hd)

/-- A text is cut into the tokens that it spells. -/
theorem tokensWithin_spaced {tokens : List Token} {text : List Char} (h : Spaced tokens text)
    (ha : Apart tokens) {fuel : Nat} (hf : text.length ≤ fuel) :
    tokensWithin fuel (text.map some) = some tokens := by
  induction h generalizing fuel with
  | @nil space hspace =>
      obtain ⟨more, rfl⟩ := Nat.exists_eq_add_of_le hf
      rw [← List.append_nil (space.map some), tokensWithin_space hspace]
      cases more <;> rfl
  | @cons space text rest t tokens hspace ht h ih =>
      have htoken := token?_spelled ht fun hn => endsNumeral_of_apart ha hn h
      obtain ⟨c, cs, rfl, hc, _⟩ := spelled_eq_cons ht
      obtain ⟨more, rfl, hmore⟩ : ∃ more, fuel = space.length + (more + 1) ∧
          rest.length ≤ more := by
        rw [List.length_append, List.length_append, List.length_cons] at hf
        exact ⟨fuel - space.length - 1, by omega, by omega⟩
      rw [List.map_append, tokensWithin_space hspace, List.map_append]
      simp only [List.map_cons, List.cons_append] at htoken ⊢
      simp [tokensWithin, hc, htoken, ih (List.IsChain.tail ha) hmore]

theorem tokens?_spaced {tokens : List Token} {text : List Char} (h : Spaced tokens text)
    (ha : Apart tokens) : tokens? (text.map some) = some tokens :=
  tokensWithin_spaced h ha (by simp)

/-- There may be more white space before a text. -/
theorem Spaced.space {tokens : List Token} {text : List Char} (h : Spaced tokens text)
    {more : List Char} (hmore : ∀ c ∈ more, isSpace c = true) : Spaced tokens (more ++ text) := by
  cases h with
  | nil hspace => exact .nil (List.forall_mem_append.mpr ⟨hmore, hspace⟩)
  | cons hspace ht h =>
      rw [← List.append_assoc]
      exact .cons (List.forall_mem_append.mpr ⟨hmore, hspace⟩) ht h

/-- What is written is spelled without white space. -/
theorem spaced_spell {tokens : List Token} (hs : ∀ t ∈ tokens, t.Spellable) :
    Spaced tokens (tokens.flatMap Token.spell) := by
  induction tokens with
  | nil => exact .nil (List.forall_mem_nil _)
  | cons t rest ih =>
      have hrest := ih fun u hu => hs u (List.mem_cons_of_mem _ hu)
      exact Spaced.cons (List.forall_mem_nil _) (hs t List.mem_cons_self).spelled_spell hrest

end ServiceDirectory.Json
