import ServiceDirectory.Proofs.Json.TakenTokens
import ServiceDirectory.Proofs.Json.Values
import ServiceDirectory.Text.Blank

/-!
# The grammar of JSON texts

The machine can tell at any time which tokens it was fed, from what is open and from what
is complete. So the tokens that it makes a value of are those of the value, a text from
which a value is read spells this value, and reading accepts just the texts of the
grammar. Texts of values side by side are put together to the text of an array.
-/

namespace ServiceDirectory.Json

open Text (Symbol)

/-! ## What the machine was fed -/

theorem itemTokens_concat (items : List Json) (v : Json) :
    itemTokens (items ++ [v]) =
      items.flatMap (fun w => tokens w ++ [.comma]) ++ (tokens v ++ [.closeArray]) := by
  induction items with
  | nil => rfl
  | cons w rest ih =>
      have hne : rest ++ [v] ≠ [] := by simp
      obtain ⟨next, more, hnext⟩ := List.exists_cons_of_ne_nil hne
      rw [List.cons_append, hnext, itemTokens_cons_cons, ← hnext, ih]
      simp

theorem memberTokens_concat (members : List (Option String × Json)) (key : Option String)
    (v : Json) :
    memberTokens (members ++ [(key, v)]) =
      members.flatMap (fun m => .string m.1 :: .colon :: tokens m.2 ++ [.comma]) ++
        .string key :: .colon :: tokens v ++ [.closeObject] := by
  induction members with
  | nil => rfl
  | cons m rest ih =>
      obtain ⟨name, w⟩ := m
      have hne : rest ++ [(key, v)] ≠ [] := by simp
      obtain ⟨next, more, hnext⟩ := List.exists_cons_of_ne_nil hne
      rw [List.cons_append, hnext, memberTokens_cons_cons, ← hnext, ih]
      simp

/-- The tokens of members that others follow, the latest first. -/
def seenMembers (members : List (Option String × Json)) : List Token :=
  .openObject ::
    members.reverse.flatMap fun m => .string m.1 :: .colon :: tokens m.2 ++ [.comma]

/-- The tokens of what is open, up to where its next value is due. -/
def Frame.seen : Frame → List Token
  | .array items => .openArray :: items.reverse.flatMap fun v => tokens v ++ [.comma]
  | .object members name => seenMembers members ++ [.string name, .colon]

/-- The tokens after those of the open frames. -/
def Phase.seen : Phase → List Token
  | .value => []
  | .firstItem => []
  | .key members => seenMembers members
  | .firstKey => [.openObject]
  | .colon members name => seenMembers members ++ [.string name]
  | .after v => tokens v

namespace Machine

/-- The tokens of open frames, the innermost of which comes first. -/
def seenFrames (frames : List Frame) : List Token := frames.reverse.flatMap Frame.seen

/-- The tokens that the machine was fed. -/
def seen (m : Machine) : List Token := seenFrames m.frames ++ m.phase.seen

/-- An item can be the first only of an array that was just opened. -/
def Proper (m : Machine) : Prop :=
  m.phase = .firstItem → ∃ frames, m.frames = .array [] :: frames

theorem seenFrames_cons (frame : Frame) (frames : List Frame) :
    seenFrames (frame :: frames) = seenFrames frames ++ frame.seen := by
  simp [seenFrames]

theorem seen_start {frames : List Frame} {t : Token} {m : Machine}
    (h : start frames t = some m) : m.seen = seenFrames frames ++ [t] ∧ m.Proper := by
  cases t with
  | openArray =>
      obtain rfl := Option.some.inj h
      refine ⟨?_, fun _ => ⟨frames, rfl⟩⟩
      simp [seen, seenFrames_cons, Frame.seen, Phase.seen]
  | openObject | null | bool | number | string =>
      obtain rfl := Option.some.inj h
      exact ⟨rfl, fun hphase => by cases hphase⟩
  | closeArray | closeObject | comma | colon => cases h

theorem seen_follow {frames : List Frame} {v : Json} {t : Token} {m : Machine}
    (h : follow frames v t = some m) :
    m.seen = seenFrames frames ++ tokens v ++ [t] ∧ m.Proper := by
  unfold follow at h
  -- The cases are a comma and the end, in an array and then in an object.
  split at h
  · obtain rfl := Option.some.inj h
    refine ⟨?_, fun hphase => by cases hphase⟩
    simp [seen, seenFrames_cons, Frame.seen, Phase.seen]
  · obtain rfl := Option.some.inj h
    refine ⟨?_, fun hphase => by cases hphase⟩
    rw [seen, seenFrames_cons]
    simp [Frame.seen, Phase.seen, tokens, itemTokens_concat]
  · obtain rfl := Option.some.inj h
    refine ⟨?_, fun hphase => by cases hphase⟩
    simp [seen, seenFrames_cons, Frame.seen, Phase.seen, seenMembers]
  · obtain rfl := Option.some.inj h
    refine ⟨?_, fun hphase => by cases hphase⟩
    rw [seen, seenFrames_cons]
    simp [Frame.seen, Phase.seen, tokens, memberTokens_concat, seenMembers]
  · cases h

theorem step_firstItem {frames : List Frame} {t : Token} (ht : t ≠ .closeArray) :
    step ⟨.array [] :: frames, .firstItem⟩ t = start (.array [] :: frames) t := by
  cases t <;> first | rfl | exact absurd rfl ht

/-- A step adds its token to those the machine was fed. -/
theorem seen_step {m m' : Machine} {t : Token} (hm : m.Proper) (h : m.step t = some m') :
    m'.seen = m.seen ++ [t] ∧ m'.Proper := by
  obtain ⟨frames, phase⟩ := m
  cases phase with
  | value =>
      have hseen : seen ⟨frames, .value⟩ = seenFrames frames := List.append_nil _
      rw [hseen]
      exact seen_start h
  | firstItem =>
      obtain ⟨frames, rfl⟩ := hm rfl
      have hseen : seen ⟨.array [] :: frames, .firstItem⟩ = seenFrames (.array [] :: frames) :=
        List.append_nil _
      rw [hseen]
      by_cases ht : t = .closeArray
      · subst ht
        obtain rfl := Option.some.inj h
        refine ⟨?_, fun hphase => by cases hphase⟩
        simp [seen, seenFrames_cons, Frame.seen, Phase.seen, tokens, itemTokens]
      · rw [step_firstItem ht] at h
        exact seen_start h
  | key members =>
      cases t with
      | string name =>
          obtain rfl := Option.some.inj h
          exact ⟨(List.append_assoc ..).symm, fun hphase => by cases hphase⟩
      | _ => cases h
  | firstKey =>
      cases t with
      | string name =>
          obtain rfl := Option.some.inj h
          exact ⟨(List.append_assoc ..).symm, fun hphase => by cases hphase⟩
      | closeObject =>
          obtain rfl := Option.some.inj h
          refine ⟨?_, fun hphase => by cases hphase⟩
          simp [seen, Phase.seen, tokens, memberTokens]
      | _ => cases h
  | colon members name =>
      cases t with
      | colon =>
          obtain rfl := Option.some.inj h
          refine ⟨?_, fun hphase => by cases hphase⟩
          simp [seen, seenFrames_cons, Frame.seen, Phase.seen]
      | _ => cases h
  | after v => exact seen_follow h

theorem seen_feed {m m' : Machine} {tokens : List Token} (hm : m.Proper)
    (h : m.feed tokens = some m') : m'.seen = m.seen ++ tokens := by
  induction tokens generalizing m with
  | nil =>
      obtain rfl := Option.some.inj h
      rw [List.append_nil]
  | cons t rest ih =>
      rw [feed_cons] at h
      obtain ⟨next, hstep, hrest⟩ := Option.bind_eq_some_iff.mp h
      obtain ⟨hseen, hproper⟩ := seen_step hm hstep
      rw [ih hproper hrest, hseen, List.append_assoc]
      rfl

theorem seen_of_result? {m : Machine} {v : Json} (h : m.result? = some v) :
    m.seen = v.tokens := by
  unfold result? at h
  split at h
  · rename_i w hframes hphase
    obtain rfl := Option.some.inj h
    rw [seen, hframes, hphase]
    rfl
  · cases h

end Machine

theorem tokens_of_ofTokens? {tokens : List Token} {v : Json} (h : ofTokens? tokens = some v) :
    tokens = v.tokens := by
  obtain ⟨m, hfeed, hresult⟩ := Option.bind_eq_some_iff.mp h
  have hseen := Machine.seen_feed (fun h => by cases h) hfeed
  rw [← Machine.seen_of_result? hresult, hseen]
  rfl

/-- A value is read from the texts that spell it and from no others. -/
theorem parse?_eq_some_iff {text : String} {v : Json} :
    parse? text = some v ↔ v.Spelled text := by
  constructor
  · intro h
    rw [parse?, ofSymbols?, Text.symbols] at h
    obtain ⟨tokens, htokens, hvalue⟩ := Option.bind_eq_some_iff.mp h
    have hspaced := spaced_tokensWithin htokens
    rwa [tokens_of_ofTokens? hvalue] at hspaced
  · exact parse?_of_spelled

/-- A text of JSON spells some value. -/
def IsText (text : String) : Prop := ∃ v : Json, v.Spelled text

theorem isText_iff {text : String} : IsText text ↔ (parse? text).isSome = true := by
  rw [Option.isSome_iff_exists]
  exact exists_congr fun _ => parse?_eq_some_iff.symm

/-! ## Texts put together -/

/-- Texts of tokens one after another are a text of all of them. -/
theorem Spaced.append {tokens more : List Token} {text rest : List Char} (h : Spaced tokens text)
    (hmore : Spaced more rest) : Spaced (tokens ++ more) (text ++ rest) := by
  induction h with
  | nil hspace => exact hmore.space hspace
  | cons hspace ht _ ih =>
      rw [List.append_assoc, List.append_assoc]
      exact .cons hspace ht ih

theorem spaced_singleton (t : Token) (h : t.Spellable) : Spaced [t] t.spell := by
  have hone : ∀ u ∈ [t], u.Spellable := fun u hu => List.mem_singleton.mp hu ▸ h
  have hspaced := spaced_spell hone
  rwa [List.flatMap_singleton] at hspaced

theorem spaced_itemTokens {items : List Json} {texts : List (List Char)}
    (h : List.Forall₂ (fun v text => Spaced v.tokens text) items texts) :
    Spaced (itemTokens items) ([','].intercalate texts ++ [']']) := by
  induction h with
  | nil => exact spaced_singleton .closeArray trivial
  | @cons v text items texts hv hrest ih =>
      cases hrest with
      | nil =>
          simpa [itemTokens, Token.spell] using hv.append (spaced_singleton .closeArray trivial)
      | cons hw hrest =>
          have hcomma := (spaced_singleton .comma trivial).append ih
          rw [itemTokens_cons_cons, List.intercalate_cons_cons, List.append_assoc]
          simpa [Token.spell] using hv.append hcomma

/-- Texts with commas between them and brackets around them. -/
def arrayText (texts : List String) : String := "[" ++ Text.join ',' texts ++ "]"

/-- Texts of values, put together so, are a text of their array. -/
theorem spelled_arrayText {items : List Json} {texts : List String}
    (h : List.Forall₂ Spelled items texts) : (Json.array items).Spelled (arrayText texts) := by
  have hitems := spaced_itemTokens (List.forall₂_map_right_iff.mpr h)
  have hopen := (spaced_singleton .openArray trivial).append hitems
  rw [Spelled, arrayText, Text.join]
  simpa [tokens, Token.spell] using hopen

end ServiceDirectory.Json
