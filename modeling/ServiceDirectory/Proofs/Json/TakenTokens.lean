import ServiceDirectory.Proofs.Json.Tokens

/-!
# Tokens that are read are spelled

A reader takes a spelling of what it gives off the start of a text and leaves the rest.
This holds of the readers of numerals and string literals, hence of tokens, and a text
that is cut into tokens spells them. The induction goes over the steps of the readers.
-/

namespace ServiceDirectory

namespace Json

open Text (Symbol)
open Numeral

/-- What a reader leaves of a text: all that follows some spelling at its start. -/
def Leaves (text : List Char) (spelled : List Char → Prop) (rest : List Symbol) : Prop :=
  ∃ spelling tail, spelled spelling ∧ text = spelling ++ tail ∧ rest = tail.map some

theorem Leaves.mono {text : List Char} {P Q : List Char → Prop} {rest : List Symbol}
    (h : Leaves text P rest) (hPQ : ∀ spelling, P spelling → Q spelling) :
    Leaves text Q rest := by
  obtain ⟨spelling, tail, hP, htext, hrest⟩ := h
  exact ⟨spelling, tail, hPQ spelling hP, htext, hrest⟩

/-- A reader that has looked at a character goes on with what follows it. -/
theorem Leaves.cons {c : Char} {text : List Char} {P Q : List Char → Prop} {rest : List Symbol}
    (h : Leaves text P rest) (hPQ : ∀ spelling, P spelling → Q (c :: spelling)) :
    Leaves (c :: text) Q rest := by
  obtain ⟨spelling, tail, hP, rfl, hrest⟩ := h
  exact ⟨c :: spelling, tail, hPQ spelling hP, rfl, hrest⟩

/-! ## Numerals -/

theorem digits_map_some (text : List Char) :
    digits (text.map some) =
      (text.takeWhile Char.isDigit, (text.dropWhile Char.isDigit).map some) := by
  have hsome : isDigitSymbol ∘ some = Char.isDigit := rfl
  rw [digits, List.takeWhile_map, List.dropWhile_map, hsome]
  simp

theorem isDigit_of_mem_takeWhile {text : List Char} {c : Char}
    (h : c ∈ text.takeWhile Char.isDigit) : c.isDigit = true :=
  List.all_eq_true.mp List.all_takeWhile c h

theorem leaves_fractionPart {text : List Char} {fraction : List Char} {rest : List Symbol}
    (h : fractionPart (text.map some) = some (fraction, rest)) :
    Leaves text (· = fractionSpelling fraction) rest ∧ ∀ c ∈ fraction, c.isDigit = true := by
  rw [fractionPart.eq_def] at h
  split at h
  · rename_i more hmore
    obtain ⟨text, rfl, rfl⟩ : ∃ text', text = '.' :: text' ∧ more = text'.map some := by
      cases text with
      | nil => cases hmore
      | cons c text =>
          obtain ⟨hc, rfl⟩ := List.cons.inj hmore
          exact ⟨text, by rw [Option.some.inj hc], rfl⟩
    rw [digits_map_some] at h
    dsimp only at h
    split at h
    · cases h
    · rename_i hne
      obtain ⟨rfl, rfl⟩ := Prod.mk.inj (Option.some.inj h)
      refine ⟨⟨_, _, rfl, ?_, rfl⟩, fun c hc => isDigit_of_mem_takeWhile hc⟩
      rw [fractionSpelling, if_neg hne, List.cons_append, List.takeWhile_append_dropWhile]
  · obtain ⟨rfl, rfl⟩ := Prod.mk.inj (Option.some.inj h)
    exact ⟨⟨[], text, rfl, rfl, rfl⟩, by simp⟩

/-- After its mark an exponent has its sign, or none, and its digits. -/
theorem exponentPart_mark {mark : Char} (hmark : mark = 'e' ∨ mark = 'E') (text : List Char) :
    ∃ negative tail,
      (text = (if negative then '-' else '+') :: tail ∨ negative = false ∧ text = tail) ∧
      exponentPart ((mark :: text).map some) =
        if (digits (tail.map some)).1.isEmpty then none
        else some (some (negative, (digits (tail.map some)).1), (digits (tail.map some)).2) := by
  cases text with
  | nil => exact ⟨false, [], .inr ⟨rfl, rfl⟩, by simp [exponentPart, hmark]⟩
  | cons c text =>
      by_cases hminus : c = '-'
      · subst hminus
        exact ⟨true, text, .inl rfl, by simp [exponentPart, hmark]⟩
      · by_cases hplus : c = '+'
        · subst hplus
          exact ⟨false, text, .inl rfl, by simp [exponentPart, hmark]⟩
        · exact ⟨false, c :: text, .inr ⟨rfl, rfl⟩,
            by simp [exponentPart, hmark, hminus, hplus]⟩

theorem leaves_exponentPart {text : List Char} {e : Option (Bool × List Char)}
    {rest : List Symbol} (h : exponentPart (text.map some) = some (e, rest)) :
    Leaves text (ExponentSpelled e) rest ∧
      ∀ p ∈ e, p.2 ≠ [] ∧ ∀ c ∈ p.2, c.isDigit = true := by
  have habsent : exponentPart (text.map some) = some (none, text.map some) →
      Leaves text (ExponentSpelled e) rest ∧
        ∀ p ∈ e, p.2 ≠ [] ∧ ∀ c ∈ p.2, c.isDigit = true := by
    intro hnone
    obtain ⟨rfl, rfl⟩ := Prod.mk.inj (Option.some.inj (hnone.symm.trans h))
    exact ⟨⟨[], text, .none, rfl, rfl⟩, by simp⟩
  cases text with
  | nil => exact habsent rfl
  | cons mark text =>
      by_cases hmark : mark = 'e' ∨ mark = 'E'
      · obtain ⟨negative, tail, hsign, hread⟩ := exponentPart_mark hmark text
        rw [hread, digits_map_some] at h
        split at h
        · cases h
        · rename_i hne
          obtain ⟨rfl, rfl⟩ := Prod.mk.inj (Option.some.inj h)
          refine ⟨?_, ?_⟩
          · rcases hsign with rfl | ⟨rfl, rfl⟩
            · exact ⟨_, _, .signed hmark negative _,
                by rw [List.cons_append, List.cons_append, List.takeWhile_append_dropWhile], rfl⟩
            · exact ⟨_, _, .plain hmark _,
                by rw [List.cons_append, List.takeWhile_append_dropWhile], rfl⟩
          · intro p hp
            obtain rfl := Option.some.inj hp
            exact ⟨by simpa using hne, fun c hc => isDigit_of_mem_takeWhile hc⟩
      · exact habsent (by simp [exponentPart, hmark])

/-- What follows the whole part of a numeral is its fraction and its exponent. -/
theorem leaves_afterWhole {whole text : List Char} {negative : Bool} {n : Numeral}
    {rest : List Symbol} (hne : whole ≠ []) (hdigits : ∀ c ∈ whole, c.isDigit = true)
    (hzero : whole.head? = some '0' → whole = ['0'])
    (h : (do
      let (fraction, rest) ← fractionPart (text.map some)
      let (exponent, rest) ← exponentPart rest
      some (({ negative, whole, fraction, exponent } : Numeral), rest)) = some (n, rest)) :
    Leaves (whole ++ text) n.UnsignedSpelled rest ∧ n.WellFormed ∧ n.negative = negative := by
  simp only [Option.bind_eq_bind, Option.bind_eq_some_iff] at h
  obtain ⟨⟨fraction, middle⟩, hfraction, ⟨exponent, last⟩, hexponent, hn⟩ := h
  obtain ⟨rfl, rfl⟩ := Prod.mk.inj (Option.some.inj hn)
  obtain ⟨⟨_, tail, rfl, rfl, rfl⟩, hfractionDigits⟩ := leaves_fractionPart hfraction
  obtain ⟨⟨spelling, tail, hspelled, rfl, rfl⟩, hexponentDigits⟩ := leaves_exponentPart hexponent
  refine ⟨⟨_, tail, ⟨spelling, hspelled, rfl⟩, by simp, rfl⟩, ?_, rfl⟩
  exact ⟨hne, hdigits, hzero, hfractionDigits, hexponentDigits⟩

/-- A numeral without its sign is a well-formed one. -/
theorem leaves_unsigned {text : List Char} {negative : Bool} {n : Numeral} {rest : List Symbol}
    (h : unsigned negative (text.map some) = some (n, rest)) :
    Leaves text n.UnsignedSpelled rest ∧ n.WellFormed ∧ n.negative = negative := by
  have htext : text.takeWhile Char.isDigit ++ text.dropWhile Char.isDigit = text :=
    List.takeWhile_append_dropWhile
  rw [unsigned, digits_map_some] at h
  dsimp only at h
  split at h
  · -- a zero at the start is the whole part
    rename_i more hzero
    rw [hzero, List.cons_append] at htext
    rw [← htext] at h ⊢
    have hdigits : ∀ c ∈ ['0'], c.isDigit = true := by simp
    exact leaves_afterWhole (by simp) hdigits (fun _ => rfl) h
  · rename_i hzero
    split at h
    · cases h
    · rename_i hne
      rw [← htext]
      refine leaves_afterWhole (by simpa using hne) (fun c hc => isDigit_of_mem_takeWhile hc) ?_ h
      intro hhead
      obtain ⟨more, hmore⟩ := List.head?_eq_some_iff.mp hhead
      exact absurd hmore (hzero more)

/-! ## String literals -/

/-- How a string literal is spelled after its opening quote. -/
def Closed (pieces : List Piece) (text : List Char) : Prop :=
  ∃ body, BodySpelled pieces body ∧ text = body ++ ['"']

theorem exists_cons_of_map_some {text : List Char} {s : Symbol} {symbols : List Symbol}
    (h : text.map some = s :: symbols) :
    ∃ c tail, text = c :: tail ∧ s = some c ∧ tail.map some = symbols := by
  obtain ⟨c, tail, rfl, hc, htail⟩ := List.map_eq_cons_iff.mp h
  exact ⟨c, tail, rfl, hc.symm, htail⟩

theorem mem_escapes_of_lookup {letter c : Char} (h : escapes.lookup letter = some c) :
    (letter, c) ∈ escapes := by
  obtain ⟨before, after, heq, _⟩ := List.lookup_eq_some_iff.mp h
  rw [heq]
  simp

theorem leaves_literal {text : List Char} {pieces : List Piece} {rest : List Symbol}
    (h : literal (text.map some) = some (pieces, rest)) : Leaves text (Closed pieces) rest := by
  generalize hsymbols : text.map some = symbols at h
  fun_induction literal symbols generalizing text pieces rest with
  | case1 => cases h
  | case2 symbols ih =>
      obtain ⟨c, tail, _, hc, _⟩ := exists_cons_of_map_some hsymbols
      cases hc
  | case3 symbols =>
      obtain ⟨c, tail, rfl, hc, rfl⟩ := exists_cons_of_map_some hsymbols
      obtain rfl := Option.some.inj hc
      obtain ⟨rfl, rfl⟩ := Prod.mk.inj (Option.some.inj h)
      exact ⟨['"'], tail, ⟨[], .nil, rfl⟩, rfl, rfl⟩
  | case4 a b c d symbols n hn hne ih =>
      obtain ⟨_, _, rfl, hslash, h₁⟩ := exists_cons_of_map_some hsymbols
      obtain ⟨_, _, rfl, hletter, h₂⟩ := exists_cons_of_map_some h₁
      obtain ⟨a, _, rfl, rfl, h₃⟩ := exists_cons_of_map_some h₂
      obtain ⟨b, _, rfl, rfl, h₄⟩ := exists_cons_of_map_some h₃
      obtain ⟨c, _, rfl, rfl, h₅⟩ := exists_cons_of_map_some h₄
      obtain ⟨d, tail, rfl, rfl, htail⟩ := exists_cons_of_map_some h₅
      obtain rfl := Option.some.inj hslash
      obtain rfl := Option.some.inj hletter
      obtain ⟨⟨pieces, rest⟩, hread, hr⟩ := Option.map_eq_some_iff.mp h
      obtain ⟨rfl, rfl⟩ := Prod.mk.inj hr
      obtain ⟨_, tail, ⟨body, hbody, rfl⟩, rfl, rfl⟩ := ih htail hread
      exact ⟨_, tail, ⟨_, .unit hn hbody, rfl⟩, rfl, rfl⟩
  | case5 => cases h
  | case6 letter symbols _ c hlookup hne ih =>
      obtain ⟨_, text, rfl, hslash, htext⟩ := exists_cons_of_map_some hsymbols
      obtain ⟨_, tail, rfl, hletter, htail⟩ := exists_cons_of_map_some htext
      obtain rfl := Option.some.inj hslash
      obtain rfl := Option.some.inj hletter
      obtain ⟨⟨pieces, rest⟩, hread, hr⟩ := Option.map_eq_some_iff.mp h
      obtain ⟨rfl, rfl⟩ := Prod.mk.inj hr
      obtain ⟨_, tail, ⟨body, hbody, rfl⟩, rfl, rfl⟩ := ih htail hread
      exact ⟨_, tail, ⟨_, .short (mem_escapes_of_lookup hlookup) hbody, rfl⟩, rfl, rfl⟩
  | case7 => cases h
  | case8 => cases h
  | case9 => cases h
  | case10 c symbols hquote hslash hcontrol ih =>
      obtain ⟨c, tail, rfl, hc, htail⟩ := exists_cons_of_map_some hsymbols
      obtain rfl := Option.some.inj hc
      obtain ⟨⟨pieces, rest⟩, hread, hr⟩ := Option.map_eq_some_iff.mp h
      obtain ⟨rfl, rfl⟩ := Prod.mk.inj hr
      obtain ⟨_, tail, ⟨body, hbody, rfl⟩, rfl, rfl⟩ := ih htail hread
      exact ⟨_, tail, ⟨_, .plain hquote hslash hcontrol hbody, rfl⟩, rfl, rfl⟩

/-! ## Tokens -/

theorem eq_spell_of_mark? {c : Char} {t : Token} (h : mark? c = some t) : t.Spelled [c] := by
  unfold mark? at h
  split at h
  all_goals first | (obtain rfl := Option.some.inj h; rfl) | cases h

theorem spelled_of_mem_words {word : List Char × Token} (h : word ∈ words) :
    word.2.Spelled word.1 := by
  simp only [words, List.mem_cons, List.not_mem_nil, or_false] at h
  rcases h with rfl | rfl | rfl <;> rfl

theorem leaves_token? {text : List Char} {t : Token} {rest : List Symbol}
    (h : token? (text.map some) = some (t, rest)) : Leaves text t.Spelled rest := by
  cases text with
  | nil => cases h
  | cons c text =>
      rw [List.map_cons, token?] at h
      split at h
      · rename_i mark hmark
        obtain ⟨rfl, rfl⟩ := Prod.mk.inj (Option.some.inj h)
        exact ⟨[c], text, eq_spell_of_mark? hmark, rfl, rfl⟩
      · split_ifs at h with hquote hminus hdigit
        · subst hquote
          obtain ⟨⟨pieces, rest⟩, hread, hr⟩ := Option.map_eq_some_iff.mp h
          obtain ⟨rfl, rfl⟩ := Prod.mk.inj hr
          refine (leaves_literal hread).cons ?_
          rintro _ ⟨body, hbody, rfl⟩
          exact ⟨pieces, body, hbody, rfl, rfl⟩
        · subst hminus
          obtain ⟨⟨n, rest⟩, hread, hr⟩ := Option.map_eq_some_iff.mp h
          obtain ⟨rfl, rfl⟩ := Prod.mk.inj hr
          obtain ⟨hleaves, hwell, hnegative⟩ := leaves_unsigned hread
          refine hleaves.cons fun spelling hspelled => ⟨hwell, spelling, hspelled, ?_⟩
          rw [hnegative]
          rfl
        · obtain ⟨⟨n, rest⟩, hread, hr⟩ := Option.map_eq_some_iff.mp h
          obtain ⟨rfl, rfl⟩ := Prod.mk.inj hr
          rw [← List.map_cons] at hread
          obtain ⟨hleaves, hwell, hnegative⟩ := leaves_unsigned hread
          refine hleaves.mono fun spelling hspelled => ⟨hwell, spelling, hspelled, ?_⟩
          rw [hnegative]
          rfl
        · obtain ⟨word, hword, hread⟩ := List.exists_of_findSome?_eq_some h
          split at hread
          · rename_i hprefix
            obtain ⟨rfl, rfl⟩ := Prod.mk.inj (Option.some.inj hread)
            obtain ⟨more, hmore⟩ := List.isPrefixOf_iff_prefix.mp hprefix
            rw [← List.map_cons] at hmore
            obtain ⟨first, tail, htext, hfirst, rfl⟩ := List.map_eq_append_iff.mp hmore.symm
            have hinj : first = word.1 := (List.map_inj_right fun _ _ => Option.some.inj).mp hfirst
            refine ⟨word.1, tail, spelled_of_mem_words hword, hinj ▸ htext, ?_⟩
            rw [← List.map_cons, htext, hinj]
            simp
          · cases hread

theorem spaced_tokensWithin {fuel : Nat} {text : List Char} {tokens : List Token}
    (h : tokensWithin fuel (text.map some) = some tokens) : Spaced tokens text := by
  induction fuel generalizing text tokens with
  | zero =>
      cases text with
      | nil =>
          obtain rfl := Option.some.inj h
          exact .nil (List.forall_mem_nil _)
      | cons c text => cases h
  | succ fuel ih =>
      cases text with
      | nil =>
          obtain rfl := Option.some.inj h
          exact .nil (List.forall_mem_nil _)
      | cons c text =>
          rw [List.map_cons, tokensWithin] at h
          split at h
          · rename_i hspace
            exact (ih h).space (List.forall_mem_singleton.mpr hspace)
          · rw [← List.map_cons] at h
            split at h
            · rename_i t rest htoken
              obtain ⟨tokens, htokens, rfl⟩ := Option.map_eq_some_iff.mp h
              obtain ⟨spelling, tail, hspelled, heq, rfl⟩ := leaves_token? htoken
              rw [heq]
              exact .cons (List.forall_mem_nil _) hspelled (ih htokens)
            · cases h

end Json

end ServiceDirectory
