import ServiceDirectory.Proofs.Codec

/-!
# Service documents

A document of a service is any text of an object that fills the slots of the service.
Members may be missing and may come in any order, strings and numbers may be spelled
in any of their ways, and members that nobody knows are passed over. Each of these
texts is read as the service, and what is read of any text at all is a service that
has such texts, its own one among them.
-/

namespace ServiceDirectory

open Json

theorem isBlank_of_isDigit {c : Char} (h : c.isDigit = true) : Text.isBlank c = false := by
  simp only [Char.isDigit, Bool.and_eq_true, decide_eq_true_eq, UInt32.le_iff_toNat_le] at h
  have hlow : 48 ≤ c.toNat := h.1
  have hhigh : c.toNat ≤ 57 := h.2
  simp [Text.isBlank, Text.blankRanges]
  omega

/-- A token has a character that is not blank: its first one. -/
theorem exists_not_blank {t : Token} {text : List Char} (ht : t.Spelled text) :
    ∃ c ∈ text, Text.isBlank c = false := by
  cases t with
  | number n =>
      obtain ⟨hwell, u, hu, rfl⟩ := ht
      obtain ⟨c, cs, rfl, hdigit⟩ := exists_digit_of_unsignedSpelled hwell hu
      exact ⟨c, by simp, isBlank_of_isDigit hdigit⟩
  | string s =>
      obtain ⟨pieces, body, _, _, rfl⟩ := ht
      exact ⟨'"', by simp, by decide⟩
  | bool b =>
      obtain rfl := ht
      cases b with
      | true => exact ⟨'t', by simp [Token.spell], by decide⟩
      | false => exact ⟨'f', by simp [Token.spell], by decide⟩
  | null =>
      obtain rfl := ht
      exact ⟨'n', by simp [Token.spell], by decide⟩
  | openArray =>
      obtain rfl := ht
      exact ⟨'[', by simp [Token.spell], by decide⟩
  | closeArray =>
      obtain rfl := ht
      exact ⟨']', by simp [Token.spell], by decide⟩
  | openObject =>
      obtain rfl := ht
      exact ⟨'{', by simp [Token.spell], by decide⟩
  | closeObject =>
      obtain rfl := ht
      exact ⟨'}', by simp [Token.spell], by decide⟩
  | comma =>
      obtain rfl := ht
      exact ⟨',', by simp [Token.spell], by decide⟩
  | colon =>
      obtain rfl := ht
      exact ⟨':', by simp [Token.spell], by decide⟩

/-- A text of a value is not blank. -/
theorem allBlank_of_spelled {v : Json} {text : String} (h : v.Spelled text) :
    Text.allBlank text = false := by
  obtain ⟨t, tokens, htokens⟩ : ∃ t tokens, v.tokens = t :: tokens := by
    cases v <;> exact ⟨_, _, rfl⟩
  rw [Spelled, htokens] at h
  rw [Text.allBlank, List.all_eq_false]
  generalize text.toList = symbols at h ⊢
  cases h with
  | cons hspace ht h =>
      obtain ⟨c, hc, hblank⟩ := exists_not_blank ht
      exact ⟨c, by simp [hc], by simp [hblank]⟩

namespace Service

/-- A text of an object that fills the slots of a service. -/
def Documents (s : Service) (text : String) : Prop :=
  ∃ value, Fills s.slots value ∧ value.Spelled text

theorem documents_print (s : Service) : s.Documents s.print :=
  ⟨s.toJson, s.fills_toJson, s.spellable_toJson.spelled_print⟩

/-- Whatever becomes of its weights, a service with a name is read from its documents. -/
theorem Documents.parse? {s : Service} {text : String} (h : s.Documents text)
    (hname : s.name ≠ "") : parse? text = s.reread? := by
  obtain ⟨value, hfills, hspelled⟩ := h
  have hdecode : decode? text = s.reread? := by
    rw [decode?, parse?_of_spelled hspelled, Option.bind_some, ofJson?_of_fills hfills]
  rw [Service.parse?, allBlank_of_spelled hspelled, hdecode]
  cases hread : s.reread? with
  | none => rfl
  | some t =>
      obtain ⟨hosts, _, rfl⟩ := Option.map_eq_some_iff.mp hread
      simp [hname]

/-- A text that is accepted is read as a service with a name and with finite weights. -/
theorem name_ne_of_parse? {text : String} {s : Service} (h : Service.parse? text = some s) :
    s.name ≠ "" := by
  rw [Service.parse?] at h
  split at h
  · cases h
  · obtain ⟨_, hname⟩ := Option.filter_eq_some_iff.mp h
    simpa using hname

/-- Of a service with a name and with finite weights that are read back nothing is lost in any of
its documents, of which its own text is one. And each text that is accepted is read as such a
service, so what is written of it is read as the same service again. -/
theorem documents_lossless (s : Service) (hname : s.name ≠ "")
    (hfinite : ∀ i ∈ s.hosts, i.weight.isFinite = true)
    (hreads : ∀ i ∈ s.hosts, i.weight.ReadsBack) :
    (∀ text, s.Documents text → parse? text = some s) ∧ s.Documents s.print ∧
      ∀ text t, parse? text = some t →
        t.name ≠ "" ∧ (∀ i ∈ t.hosts, i.weight.isFinite = true) ∧
          ((∀ i ∈ t.hosts, i.weight.ReadsBack) → parse? t.print = some t) := by
  have hlossless : ∀ t : Service, t.name ≠ "" → (∀ i ∈ t.hosts, i.weight.isFinite = true) →
      (∀ i ∈ t.hosts, i.weight.ReadsBack) → ∀ text, t.Documents text → parse? text = some t := by
    intro t hname hfinite hreads text htext
    rw [htext.parse? hname, reread?_eq_some fun i hi => ⟨hfinite i hi, hreads i hi⟩]
  refine ⟨hlossless s hname hfinite hreads, s.documents_print, ?_⟩
  intro text t ht
  have hname := name_ne_of_parse? ht
  have hfinite := isFinite_of_parse? ht
  exact ⟨hname, hfinite, fun hreads => hlossless t hname hfinite hreads _ t.documents_print⟩

/-- A service all of whose other members are what is taken for them anyway. -/
def plain : Service :=
  { Service.placeholder "a" "" with hosts := [{ ip := "10.0.0.1", port := 80 }] }

/-- An object that says no more of it than it must, turned around and among members that nobody
knows. -/
def plainObject : Json :=
  record
    [("hosts", .array [record [("port", ofNat 80), ("zone", .null), ("ip", ofString "10.0.0.1")]]),
      ("extra", .array [.bool true, record [("name", ofNat 1)]]), ("name", ofString "a")]

/-- The text of the object, after a line feed and a tabulator. -/
def plainText : String := "\n\t" ++ plainObject.print

theorem documents_plainText : plain.Documents plainText := by
  have hhost : Fills (Instance.slots { ip := "10.0.0.1", port := 80 })
      (record [("port", ofNat 80), ("zone", .null), ("ip", ofString "10.0.0.1")]) := by
    refine ⟨_, rfl, ?_⟩
    simp [Instance.slots, Slot.exact, Slot.FilledBy]
  have hfills : Fills plain.slots plainObject := by
    refine ⟨_, rfl, ?_⟩
    simpa [slots, plain, placeholder, Slot.exact, Slot.FilledBy] using hhost
  have hspellable : plainObject.Spellable := by
    apply spellable_record
    simp [spellable_record, spellable_ofString, spellable_ofNat, Spellable.null, Spellable.array,
      Spellable.bool]
  have hspace : "\n\t".toList.all isSpace = true := by decide
  refine ⟨plainObject, hfills, ?_⟩
  rw [Spelled, plainText, String.toList_append]
  exact Spaced.space hspellable.spelled_print (List.all_eq_true.mp hspace)

theorem plainText_lossless :
    plain.Documents plainText ∧ parse? plainText = some plain ∧ plainText ≠ plain.print := by
  have hfinite : ∀ i ∈ plain.hosts, i.weight.isFinite = true := by decide
  have hreads : ∀ i ∈ plain.hosts, i.weight.ReadsBack := by decide +kernel
  have hlossless := documents_lossless plain (by decide) hfinite hreads
  exact ⟨documents_plainText, hlossless.1 _ documents_plainText, by decide +kernel⟩

end Service

end ServiceDirectory
