import ServiceDirectory.Proofs.Json.Tokens

/-!
# Values are read as they were spelled

A text spells a value if it spells the tokens of the value. The tokens take the
machine from before the value to after it, whatever is open around it; the induction
is on the value, and within an array or object on its contents. With the reading of
tokens this gives the value back from any text that spells it, so also from its own.
-/

namespace ServiceDirectory.Json

/-- How a value is spelled. -/
def Spelled (v : Json) (text : String) : Prop := Spaced v.tokens text.toList

/-- What holds of the contents of an array or an object passes to it. -/
theorem induction {P : Json → Prop} (null : P .null) (bool : ∀ b, P (.bool b))
    (number : ∀ n, P (.number n)) (string : ∀ s, P (.string s))
    (array : ∀ items, (∀ v ∈ items, P v) → P (.array items))
    (object : ∀ members, (∀ m ∈ members, P m.2) → P (.object members)) : ∀ v, P v
  | .null => null
  | .bool b => bool b
  | .number n => number n
  | .string s => string s
  | .array items => array items fun v _ => induction null bool number string array object v
  | .object members =>
    object members fun m hm =>
      have : sizeOf m.2 < 1 + sizeOf members := by
        have hsize := List.sizeOf_lt_of_mem hm
        have hpair : sizeOf m = 1 + sizeOf m.1 + sizeOf m.2 := rfl
        omega
      induction null bool number string array object m.2

/-- A value that is read back from its text: its numerals are well formed and its strings texts. -/
inductive Spellable : Json → Prop
  | null : Spellable .null
  | bool (b : Bool) : Spellable (.bool b)
  | number {n : Numeral} (h : n.WellFormed) : Spellable (.number n)
  | string (s : String) : Spellable (.string (some s))
  | array {items : List Json} (h : ∀ v ∈ items, Spellable v) : Spellable (.array items)
  | object {members : List (Option String × Json)} (hkey : ∀ m ∈ members, m.1.isSome = true)
      (h : ∀ m ∈ members, Spellable m.2) : Spellable (.object members)

theorem spellable_ofString (s : String) : (ofString s).Spellable := .string s

theorem spellable_ofNat (n : Nat) : (ofNat n).Spellable := .number (Numeral.wellFormed_ofNat n)

theorem spellable_record {members : List (String × Json)} (h : ∀ m ∈ members, m.2.Spellable) :
    (record members).Spellable := by
  apply Spellable.object
  · intro m hm
    obtain ⟨p, _, rfl⟩ := List.mem_map.mp hm
    rfl
  · intro m hm
    obtain ⟨p, hp, rfl⟩ := List.mem_map.mp hm
    exact h p hp

/-! ## Tokens of a value -/

theorem itemTokens_cons_cons (v w : Json) (rest : List Json) :
    itemTokens (v :: w :: rest) = tokens v ++ .comma :: itemTokens (w :: rest) := rfl

theorem memberTokens_cons_cons (key : Option String) (v : Json) (m : Option String × Json)
    (rest : List (Option String × Json)) :
    memberTokens ((key, v) :: m :: rest) =
      .string key :: .colon :: tokens v ++ .comma :: memberTokens (m :: rest) := rfl

/-- What holds of the tokens of all items, and of marks, holds of the tokens of the list. -/
theorem forall_mem_itemTokens {P : Token → Prop} (hclose : P .closeArray) (hcomma : P .comma)
    {items : List Json} (h : ∀ v ∈ items, ∀ t ∈ tokens v, P t) :
    ∀ t ∈ itemTokens items, P t := by
  induction items with
  | nil => simpa [itemTokens] using hclose
  | cons v rest ih =>
      have hv := h v (by simp)
      have hrest := ih fun w hw => h w (List.mem_cons_of_mem _ hw)
      cases rest with
      | nil =>
          intro t ht
          rcases List.mem_append.mp ht with ht | ht
          · exact hv t ht
          · exact List.mem_singleton.mp ht ▸ hclose
      | cons w rest =>
          intro t ht
          rw [itemTokens_cons_cons, List.mem_append, List.mem_cons] at ht
          rcases ht with ht | rfl | ht
          · exact hv t ht
          · exact hcomma
          · exact hrest t ht

theorem forall_mem_memberTokens {P : Token → Prop} (hclose : P .closeObject) (hcomma : P .comma)
    (hcolon : P .colon) {members : List (Option String × Json)}
    (hkey : ∀ m ∈ members, P (.string m.1)) (h : ∀ m ∈ members, ∀ t ∈ tokens m.2, P t) :
    ∀ t ∈ memberTokens members, P t := by
  induction members with
  | nil => simpa [memberTokens] using hclose
  | cons m rest ih =>
      obtain ⟨key, v⟩ := m
      have hk := hkey (key, v) (by simp)
      have hv := h (key, v) (by simp)
      have hrest := ih (fun m hm => hkey m (List.mem_cons_of_mem _ hm))
        fun m hm => h m (List.mem_cons_of_mem _ hm)
      cases rest with
      | nil =>
          intro t ht
          simp only [memberTokens, List.cons_append, List.mem_cons, List.mem_append,
            List.not_mem_nil, or_false] at ht
          rcases ht with rfl | rfl | ht | rfl
          · exact hk
          · exact hcolon
          · exact hv t ht
          · exact hclose
      | cons w rest =>
          intro t ht
          simp only [memberTokens_cons_cons, List.cons_append, List.mem_cons,
            List.mem_append] at ht
          rcases ht with rfl | rfl | ht | rfl | ht
          · exact hk
          · exact hcolon
          · exact hv t ht
          · exact hcomma
          · exact hrest t ht

theorem Spellable.tokens {v : Json} (h : v.Spellable) : ∀ t ∈ v.tokens, t.Spellable := by
  induction h with
  | null => simp [Json.tokens, Token.Spellable]
  | bool b => simp [Json.tokens, Token.Spellable]
  | number h => simpa [Json.tokens, Token.Spellable] using h
  | string s => simp [Json.tokens, Token.Spellable]
  | array h ih =>
      intro t ht
      rcases List.mem_cons.mp ht with rfl | ht
      · trivial
      · exact forall_mem_itemTokens trivial trivial ih t ht
  | object hkey h ih =>
      intro t ht
      rcases List.mem_cons.mp ht with rfl | ht
      · trivial
      · exact forall_mem_memberTokens trivial trivial trivial hkey ih t ht

/-! ## No two numerals side by side -/

theorem apart_cons {t : Token} (ht : t.isNumber = false) {rest : List Token} (h : Apart rest) :
    Apart (t :: rest) :=
  List.isChain_cons.mpr ⟨fun _ _ => Or.inl ht, h⟩

theorem apart_append_cons {first rest : List Token} {t : Token} (ht : t.isNumber = false)
    (hfirst : Apart first) (h : Apart (t :: rest)) : Apart (first ++ t :: rest) := by
  apply hfirst.append h
  intro a _ b hb
  obtain rfl : t = b := by simpa using hb
  exact Or.inr ht

theorem apart_itemTokens {items : List Json} (h : ∀ v ∈ items, Apart (tokens v)) :
    Apart (itemTokens items) := by
  induction items with
  | nil => exact List.isChain_singleton _
  | cons v rest ih =>
      have hrest := ih fun w hw => h w (List.mem_cons_of_mem _ hw)
      cases rest with
      | nil => exact apart_append_cons rfl (h v (by simp)) (List.isChain_singleton _)
      | cons w rest => exact apart_append_cons rfl (h v (by simp)) (apart_cons rfl hrest)

theorem apart_memberTokens {members : List (Option String × Json)}
    (h : ∀ m ∈ members, Apart (tokens m.2)) : Apart (memberTokens members) := by
  induction members with
  | nil => exact List.isChain_singleton _
  | cons m rest ih =>
      obtain ⟨key, v⟩ := m
      have hrest := ih fun m hm => h m (List.mem_cons_of_mem _ hm)
      have hv : Apart (tokens v) := h (key, v) (by simp)
      cases rest with
      | nil =>
          exact apart_cons rfl (apart_cons rfl
            (apart_append_cons rfl hv (List.isChain_singleton _)))
      | cons w rest =>
          exact apart_cons rfl (apart_cons rfl
            (apart_append_cons rfl hv (apart_cons rfl hrest)))

theorem apart_tokens (v : Json) : Apart v.tokens := by
  induction v using Json.induction with
  | null => exact List.isChain_singleton _
  | bool b => exact List.isChain_singleton _
  | number n => exact List.isChain_singleton _
  | string s => exact List.isChain_singleton _
  | array items ih => exact apart_cons rfl (apart_itemTokens ih)
  | object members ih => exact apart_cons rfl (apart_memberTokens ih)

/-! ## The machine -/

namespace Machine

theorem feed_cons (m : Machine) (t : Token) (rest : List Token) :
    m.feed (t :: rest) = (m.step t).bind (·.feed rest) := by
  rw [feed]
  cases m.step t <;> rfl

/-- The machine reads a value: it comes from before it to after it. -/
def Reads (v : Json) : Prop :=
  ∀ frames rest, feed ⟨frames, .value⟩ (tokens v ++ rest) = feed ⟨frames, .after v⟩ rest

/-- Where an array may also end, a value is read as elsewhere. -/
theorem feed_firstItem (frame : Frame) (frames : List Frame) (v : Json) (rest : List Token) :
    feed ⟨frame :: frames, .firstItem⟩ (tokens v ++ rest) =
      feed ⟨frame :: frames, .value⟩ (tokens v ++ rest) := by
  cases v <;> rfl

theorem feed_itemTokens {v : Json} {items : List Json} (h : ∀ w ∈ v :: items, Reads w)
    (seen : List Json) (frames : List Frame) (rest : List Token) :
    feed ⟨.array seen :: frames, .value⟩ (itemTokens (v :: items) ++ rest) =
      feed ⟨frames, .after (.array (seen.reverse ++ v :: items))⟩ rest := by
  induction items generalizing v seen with
  | nil =>
      have hv := h v (by simp) (.array seen :: frames) (.closeArray :: rest)
      have htext : itemTokens [v] ++ rest = tokens v ++ .closeArray :: rest := by
        simp [itemTokens]
      rw [htext, hv, feed_cons]
      simp [step, follow]
  | cons w items ih =>
      have hv := h v (by simp) (.array seen :: frames) (.comma :: (itemTokens (w :: items) ++ rest))
      have hrest := ih (fun u hu => h u (List.mem_cons_of_mem _ hu)) (v :: seen)
      rw [itemTokens_cons_cons, List.append_assoc, List.cons_append, hv, feed_cons]
      simp only [step, follow, Option.bind_some, hrest]
      simp

/-- A key and a colon put the machine before the member's value. -/
theorem feed_key (seen : List (Option String × Json)) (key : Option String)
    (frames : List Frame) (rest : List Token) :
    feed ⟨frames, .key seen⟩ (.string key :: .colon :: rest) =
      feed ⟨.object seen key :: frames, .value⟩ rest := by
  simp [feed_cons, step]

theorem feed_memberTokens {m : Option String × Json} {members : List (Option String × Json)}
    (h : ∀ w ∈ m :: members, Reads w.2) (seen : List (Option String × Json))
    (frames : List Frame) (rest : List Token) :
    feed ⟨frames, .key seen⟩ (memberTokens (m :: members) ++ rest) =
      feed ⟨frames, .after (.object (seen.reverse ++ m :: members))⟩ rest := by
  induction members generalizing m seen with
  | nil =>
      obtain ⟨key, v⟩ := m
      have hv := h (key, v) (by simp) (.object seen key :: frames) (.closeObject :: rest)
      have htext : memberTokens [(key, v)] ++ rest =
          .string key :: .colon :: (tokens v ++ .closeObject :: rest) := by
        simp [memberTokens]
      rw [htext, feed_key, hv, feed_cons]
      simp [step, follow]
  | cons w members ih =>
      obtain ⟨key, v⟩ := m
      have hv := h (key, v) (by simp) (.object seen key :: frames)
        (.comma :: (memberTokens (w :: members) ++ rest))
      have hrest := ih (fun u hu => h u (List.mem_cons_of_mem _ hu)) ((key, v) :: seen)
      have htext : memberTokens ((key, v) :: w :: members) ++ rest =
          .string key :: .colon ::
            (tokens v ++ .comma :: (memberTokens (w :: members) ++ rest)) := by
        simp [memberTokens_cons_cons]
      rw [htext, feed_key, hv, feed_cons]
      simp only [step, follow, Option.bind_some, hrest]
      simp

end Machine

theorem Machine.reads (v : Json) : Reads v := by
  induction v using Json.induction with
  | null => exact fun _ _ => rfl
  | bool b => exact fun _ _ => rfl
  | number n => exact fun _ _ => rfl
  | string s => exact fun _ _ => rfl
  | array items ih =>
      intro frames rest
      cases items with
      | nil => rfl
      | cons v items =>
          have hfirst : itemTokens (v :: items) ++ rest =
              v.tokens ++ (itemTokens (v :: items) ++ rest).drop v.tokens.length := by
            cases items <;> simp [itemTokens]
          change Machine.feed ⟨.array [] :: frames, .firstItem⟩
            (itemTokens (v :: items) ++ rest) = _
          rw [hfirst, Machine.feed_firstItem, ← hfirst, Machine.feed_itemTokens ih]
          rfl
  | object members ih =>
      intro frames rest
      cases members with
      | nil => rfl
      | cons m members =>
          have hmembers := Machine.feed_memberTokens ih [] frames rest
          obtain ⟨key, v⟩ := m
          cases members <;> exact hmembers

theorem ofTokens?_tokens (v : Json) : ofTokens? v.tokens = some v := by
  have hreads := Machine.reads v [] []
  rw [List.append_nil] at hreads
  change (Machine.feed ⟨[], .value⟩ v.tokens).bind Machine.result? = some v
  rw [hreads]
  rfl

/-- A value is read from any text that spells it. -/
theorem parse?_of_spelled {v : Json} {text : String} (h : v.Spelled text) :
    parse? text = some v := by
  rw [parse?, ofSymbols?, Text.symbols, tokens?_spaced h v.apart_tokens, Option.bind_some,
    ofTokens?_tokens]

theorem Spellable.spelled_print {v : Json} (h : v.Spellable) : v.Spelled v.print := by
  rw [Spelled, print, String.toList_ofList]
  exact spaced_spell h.tokens

/-- A value is read back from its text. -/
theorem parse?_print {v : Json} (h : v.Spellable) : parse? v.print = some v :=
  parse?_of_spelled h.spelled_print

end ServiceDirectory.Json
