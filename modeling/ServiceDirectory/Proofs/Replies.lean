import ServiceDirectory.Proofs.Documents
import ServiceDirectory.Proofs.Json.Grammar

/-!
# The kinds of replies agree

A batch holds the texts of documents and a catalog their values. Both are read item by
item, and an item of a catalog is read as its text is read alone, whatever stands around
it. So the kinds of replies say the same of the same documents. They differ in what
becomes of the others if a document is no service.
-/

namespace ServiceDirectory

open Json

/-! ## Batches -/

theorem eq_array_of_items? {v : Json} {items : List Json} (h : v.items? = some items) :
    v = .array items := by
  cases v with
  | array items' =>
      obtain rfl := Option.some.inj h
      rfl
  | null => cases h
  | bool b => cases h
  | number n => cases h
  | string s => cases h
  | object members => cases h

theorem spelled_print_array_ofString (texts : List String) :
    (Json.array (texts.map ofString)).Spelled (Json.array (texts.map ofString)).print := by
  apply Spellable.spelled_print
  apply Spellable.array
  intro v hv
  obtain ⟨s, _, rfl⟩ := List.mem_map.mp hv
  exact spellable_ofString s

/-- A batch of documents is a text of the array of their texts. -/
theorem parseBatch?_eq_some_iff {reply : String} {documents : List String} :
    parseBatch? reply = some documents ↔
      (Json.array (documents.map ofString)).Spelled reply := by
  constructor
  · intro h
    simp only [parseBatch?, Option.bind_eq_bind, Option.bind_eq_some_iff] at h
    obtain ⟨v, hv, items, hitems, htexts⟩ := h
    obtain rfl := eq_array_of_items? hitems
    rw [← eq_map_of_mapM htexts fun s w => eq_ofString_of_text?]
    exact parse?_eq_some_iff.mp hv
  · intro h
    rw [parseBatch?, parse?_of_spelled h]
    exact mapM_map fun s _ => text?_ofString s

/-! ## Catalogs -/

theorem decode?_of_spelled {v : Json} {text : String} (h : v.Spelled text) :
    Service.decode? text = Service.ofJson? v := by
  rw [Service.decode?, parse?_of_spelled h, Option.bind_some]

/-- A catalog is read as its documents are, one by one. -/
theorem parseCatalog?_arrayText {documents : List String} (h : ∀ d ∈ documents, IsText d) :
    parseCatalog? (arrayText documents) = documents.mapM Service.decode? := by
  have hvalues : (documents.mapM Json.parse?).isSome = true :=
    isSome_mapM.mpr fun d hd => isText_iff.mp (h d hd)
  obtain ⟨items, hitems⟩ := Option.isSome_iff_exists.mp hvalues
  have hspelled : List.Forall₂ Spelled items documents :=
    (mapM_eq_some_iff.mp hitems).flip.imp fun _ _ => parse?_eq_some_iff.mp
  rw [parseCatalog?, parse?_of_spelled (spelled_arrayText hspelled)]
  exact (mapM_forall₂ hspelled fun v d hd => decode?_of_spelled hd).symm

/-! ## Single replies -/

/-- A text of JSON is a single reply if it is a document of a service with a name. -/
theorem parse?_eq_filter {text : String} (h : IsText text) :
    Service.parse? text = (Service.decode? text).filter (!·.name.isEmpty) := by
  obtain ⟨v, hv⟩ := h
  rw [Service.parse?, allBlank_of_spelled hv]
  rfl

theorem parse?_of_decode? {text : String} {s : Service} (h : Service.decode? text = some s) :
    Service.parse? text = if s.name = "" then none else some s := by
  have htext : IsText text := by
    obtain ⟨v, hv, _⟩ := Option.bind_eq_some_iff.mp h
    exact ⟨v, parse?_eq_some_iff.mp hv⟩
  rw [parse?_eq_filter htext, h, Option.filter_some]
  by_cases hname : s.name = ""
  · simp [hname]
  · simp [hname]

theorem parse?_of_decode?_eq_none {text : String} (h : Service.decode? text = none) :
    Service.parse? text = none := by
  rw [Service.parse?, h]
  split <;> rfl

/-! ## All of them -/

theorem forall₂_parse? {documents : List String} {services : List Service}
    (h : List.Forall₂ (fun d s => Service.decode? d = some s) documents services)
    (hnames : ∀ s ∈ services, s.name ≠ "") :
    List.Forall₂ (fun d s => Service.parse? d = some s) documents services := by
  induction h with
  | nil => exact .nil
  | cons hd _ ih =>
      obtain ⟨hname, hrest⟩ := List.forall_mem_cons.mp hnames
      exact .cons (by rw [parse?_of_decode? hd, if_neg hname]) (ih hrest)

/-- What the kinds of replies say of the same documents. -/
structure RepliesAgree (documents : List String) : Prop where
  /-- A batch is read as the documents if it is a text of the array of their texts, and only
  then. -/
  batch : ∀ reply, parseBatch? reply = some documents ↔
    (Json.array (documents.map ofString)).Spelled reply
  /-- A catalog is read if all documents are. -/
  catalog : (parseCatalog? (arrayText documents)).isSome = true ↔
    ∀ d ∈ documents, (Service.decode? d).isSome = true
  /-- Its services are those of the documents, in their order. -/
  services : ∀ services, parseCatalog? (arrayText documents) = some services →
    List.Forall₂ (fun d s => Service.decode? d = some s) documents services
  /-- Alone a document is read as the same service, unless this has no name. -/
  single : ∀ d ∈ documents, ∀ s, Service.decode? d = some s →
    Service.parse? d = if s.name = "" then none else some s
  /-- Where all services have names, the kinds of replies tell the same services. -/
  named : ∀ services, parseCatalog? (arrayText documents) = some services →
    (∀ s ∈ services, s.name ≠ "") →
      documents.mapM Service.parse? = some services ∧
        ∀ reply, (Json.array (documents.map ofString)).Spelled reply →
          (parseBatch? reply).bind (·.mapM Service.parse?) = some services
  /-- A document that is no service voids a catalog, but of a batch nothing else than itself. -/
  spoiled : ∀ before d after, documents = before ++ d :: after → Service.decode? d = none →
    parseCatalog? (arrayText documents) = none ∧
      ∀ reply, (Json.array (documents.map ofString)).Spelled reply →
        (parseBatch? reply).map (·.filterMap Service.parse?) =
          some ((before ++ after).filterMap Service.parse?)

/-- Of texts of JSON the three kinds of replies say the same. -/
theorem replies_agree (documents : List String) (htexts : ∀ d ∈ documents, IsText d) :
    RepliesAgree documents where
  batch _ := parseBatch?_eq_some_iff
  catalog := by
    rw [parseCatalog?_arrayText htexts, isSome_mapM]
  services := by
    intro services h
    rw [parseCatalog?_arrayText htexts] at h
    exact mapM_eq_some_iff.mp h
  single := fun _ _ _ h => parse?_of_decode? h
  named := by
    intro services h hnames
    rw [parseCatalog?_arrayText htexts] at h
    have hsingle : documents.mapM Service.parse? = some services :=
      mapM_eq_some_iff.mpr (forall₂_parse? (mapM_eq_some_iff.mp h) hnames)
    refine ⟨hsingle, fun reply hreply => ?_⟩
    rw [parseBatch?_eq_some_iff.mpr hreply]
    exact hsingle
  spoiled := by
    rintro before d after rfl hnone
    constructor
    · rw [parseCatalog?_arrayText htexts, ← Option.not_isSome_iff_eq_none, isSome_mapM]
      intro hall
      have hd := hall d (by simp)
      rw [hnone] at hd
      cases hd
    · intro reply hreply
      rw [parseBatch?_eq_some_iff.mpr hreply]
      simp [parse?_of_decode?_eq_none hnone]

/-- A document with white space around it and an unknown member that is no text, one whose name is
a number, and one that is an array of fields. -/
def spoiledDocuments : List String :=
  ["\n\x7b\"zone\":\"\\ud800\",\"name\":\"a\"\x7d ", "\x7b\"name\":7\x7d", "[\"b\",\"g\"]"]

theorem spoiledDocuments_agree :
    (∀ d ∈ spoiledDocuments, IsText d) ∧ parseCatalog? (arrayText spoiledDocuments) = none ∧
      (parseBatch? (Json.array (spoiledDocuments.map ofString)).print).map
          (·.filterMap Service.parse?) =
        some [Service.placeholder "a" "",
          { Service.placeholder "b" "" with groupName := "g" }] := by
  have htexts : ∀ d ∈ spoiledDocuments, IsText d := by
    intro d hd
    have hall : spoiledDocuments.all fun d => (Json.parse? d).isSome := by decide +kernel
    exact isText_iff.mpr (List.all_eq_true.mp hall d hd)
  have hagree := replies_agree spoiledDocuments htexts
  obtain ⟨hcatalog, hbatch⟩ := hagree.spoiled
    ["\n\x7b\"zone\":\"\\ud800\",\"name\":\"a\"\x7d "] "\x7b\"name\":7\x7d" ["[\"b\",\"g\"]"] rfl
    (by decide +kernel)
  refine ⟨htexts, hcatalog, ?_⟩
  rw [hbatch _ (spelled_print_array_ofString _)]
  decide +kernel

end ServiceDirectory
