import ServiceDirectory.Proofs.Json.Records
import ServiceDirectory.Proofs.Json.Values
import ServiceDirectory.Proofs.KeyMaps
import ServiceDirectory.Proofs.Weights
import ServiceDirectory.Service.Reply

/-!
# Services are read as they were written

A service is read from every object that renders it: with its members and those of
its hosts in any order, without members that say what is taken for them anyway, among
any others. Only weights may change, each to the number that is read for what is
written of it; where these are the weights themselves, nothing is lost.
-/

namespace ServiceDirectory

namespace Json

@[simp] theorem text?_ofString (s : String) : (ofString s).text? = some s := rfl

theorem eq_ofString_of_text? {s : String} {v : Json} (h : v.text? = some s) : v = ofString s := by
  cases v with
  | string text =>
      obtain rfl : text = some s := h
      rfl
  | null => cases h
  | bool b => cases h
  | number n => cases h
  | array items => cases h
  | object members => cases h

@[simp] theorem bool?_bool (b : Bool) : (Json.bool b).bool? = some b := rfl

theorem natBelow?_ofNat {bound n : Nat} (h : n < bound) :
    (ofNat n).natBelow? bound = some n := by
  simp [ofNat, natBelow?, Numeral.natural?_ofNat, h]

end Json

open Json

@[simp] theorem millis?_ofNat (t : Millis) : millis? (ofNat t.toNat) = some t := by
  have hlt : t.toNat < UInt64.size := t.toNat_lt
  rw [millis?, natBelow?_ofNat hlt]
  exact congrArg some UInt64.ofNat_toNat

theorem textMap?_record (entries : List (String × String)) :
    textMap? (record (entries.map fun e => (e.1, ofString e.2))) =
      some (KeyMap.ofList entries) := by
  have hentries := mapM_map (f := fun e : String × String => (e.1, ofString e.2))
    (g := fun m => m.2.text?.map (m.1, ·)) (l := entries) fun _ _ => rfl
  rw [textMap?, members?_record]
  simp only [Option.bind_eq_bind, Option.bind_some, hentries]

/-- What is read as a map of texts is an object of texts. -/
theorem exists_entries_of_textMap? {value : Json} {map : KeyMap String String}
    (h : textMap? value = some map) :
    ∃ entries : List (String × String),
      value = record (entries.map fun e => (e.1, ofString e.2)) := by
  simp only [textMap?, Option.bind_eq_bind, Option.bind_eq_some_iff] at h
  obtain ⟨members, hmembers, entries, hentries, _⟩ := h
  refine ⟨entries, ?_⟩
  rw [eq_record_of_members? hmembers]
  apply congrArg record
  apply eq_map_of_mapM hentries
  rintro e ⟨key, value⟩ he
  obtain ⟨text, htext, rfl⟩ := Option.map_eq_some_iff.mp he
  exact congrArg (key, ·) (eq_ofString_of_text? htext)

@[simp] theorem textMap?_textMapJson (map : KeyMap String String) :
    textMap? (textMapJson map) = some map := by
  rw [textMapJson, textsJson, textMap?_record, KeyMap.ofList_entries]

theorem spellable_textsJson (entries : List (String × String)) :
    (textsJson entries).Spellable := by
  apply spellable_record
  intro m hm
  obtain ⟨e, _, rfl⟩ := List.mem_map.mp hm
  exact spellable_ofString e.2

theorem spellable_textMapJson (map : KeyMap String String) : (textMapJson map).Spellable :=
  spellable_textsJson map.entries

theorem spellable_ofDouble (x : Binary64) : (ofDouble x).Spellable := by
  rw [ofDouble]
  cases h : x.numeral? with
  | none => exact .null
  | some n => exact .number (Binary64.wellFormed_numeral? h)

/-! ## Weights -/

namespace Binary64

/-- What is read for what is written of a weight. -/
def reread? (x : Binary64) : Option Binary64 := (ofDouble x).double?

theorem reread?_eq_some {x : Binary64} (hfinite : x.isFinite = true) (h : x.ReadsBack) :
    x.reread? = some x := by
  obtain ⟨n, hn⟩ := numeral?_of_isFinite hfinite
  rw [reread?, ofDouble, hn]
  exact h n hn

theorem reread?_one : one.reread? = some one :=
  reread?_eq_some (by decide) (by decide +kernel)

end Binary64

/-! ## Instances -/

namespace Instance

theorem spellable_toJson (i : Instance) : i.toJson.Spellable := by
  apply spellable_record
  intro m hm
  simp only [List.mem_cons, List.not_mem_nil, or_false] at hm
  rcases hm with rfl | rfl | rfl | rfl | rfl | rfl | rfl | rfl | rfl | rfl
  · exact spellable_ofString _
  · exact spellable_ofString _
  · exact spellable_ofNat _
  · exact spellable_ofDouble _
  · exact .bool _
  · exact .bool _
  · exact .bool _
  · exact spellable_ofString _
  · exact spellable_ofString _
  · exact spellable_textMapJson _

/-- What stands for an instance: of its members all but the address and port may be left out. -/
def slots (i : Instance) : List Slot :=
  [.exact "instanceId" (ofString i.instanceId) (i.instanceId = ""),
    .exact "ip" (ofString i.ip) False, .exact "port" (ofNat i.port.toNat) False,
    .exact "weight" (ofDouble i.weight) (i.weight = Binary64.one),
    .exact "healthy" (.bool i.healthy) (i.healthy = true),
    .exact "enabled" (.bool i.enabled) (i.enabled = true),
    .exact "ephemeral" (.bool i.ephemeral) (i.ephemeral = false),
    .exact "clusterName" (ofString i.clusterName) (i.clusterName = ""),
    .exact "serviceName" (ofString i.serviceName) (i.serviceName = ""),
    .exact "metadata" (textMapJson i.metadata) (i.metadata = KeyMap.empty)]

theorem fills_toJson (i : Instance) : Fills i.slots i.toJson := by
  refine ⟨_, rfl, ?_⟩
  simp [slots, Slot.exact, Slot.FilledBy]

/-- The instance with the weight that is read for its weight, if any is. -/
def reread? (i : Instance) : Option Instance := i.weight.reread?.map ({ i with weight := · })

/-- The weight is a number, and the number that is read for it. -/
def WeightReadsBack (i : Instance) : Prop := i.weight.isFinite = true ∧ i.weight.ReadsBack

theorem WeightReadsBack.reread? {i : Instance} (h : i.WeightReadsBack) : i.reread? = some i := by
  rw [Instance.reread?, Binary64.reread?_eq_some h.1 h.2, Option.map_some]

/-- Whatever stands for an instance is read as it, up to its weight. -/
theorem ofJson?_of_fills {i : Instance} {value : Json} (h : Fills i.slots value) :
    ofJson? value = i.reread? := by
  have hfields : i.slots.map Slot.name = fields := rfl
  obtain ⟨r, hr, hhas⟩ := h.exists_record hfields
  simp only [slots, List.forall_mem_cons, List.not_mem_nil, false_implies, implies_true,
    and_true] at hhas
  obtain ⟨hid, hip, hport, hweight, hhealthy, henabled, hephemeral, hcluster, hservice,
    hmetadata⟩ := hhas
  have hportValue : (ofNat i.port.toNat).natBelow? UInt16.size = some i.port.toNat :=
    natBelow?_ofNat i.port.toNat_lt
  have hweightValue : r.optional "weight" Json.double? Binary64.one = i.weight.reread? := by
    apply hweight.optional
    · rintro _ rfl
      rfl
    · intro hone
      rw [hone]
      exact Binary64.reread?_one.symm
  rw [ofJson?, hr]
  simp only [Option.bind_eq_bind, Option.bind_some, hid.optional_exact (text?_ofString _),
    hip.required_exact (text?_ofString _), hport.required_exact hportValue, hweightValue,
    hhealthy.optional_exact (bool?_bool _), henabled.optional_exact (bool?_bool _),
    hephemeral.optional_exact (bool?_bool _), hcluster.optional_exact (text?_ofString _),
    hservice.optional_exact (text?_ofString _),
    hmetadata.optional_exact (textMap?_textMapJson _), UInt16.ofNat_toNat]
  rw [reread?, Option.map_eq_bind]
  rfl

/-- A weight that is read, or taken for one that is not there, is finite. -/
theorem isFinite_of_ofJson? {value : Json} {i : Instance} (h : ofJson? value = some i) :
    i.weight.isFinite = true := by
  simp only [ofJson?, Option.bind_eq_bind, Option.bind_eq_some_iff] at h
  obtain ⟨r, _, _, _, _, _, _, _, weight, hweight, _, _, _, _, _, _, _, _, _, _, _, _, hi⟩ := h
  obtain rfl := Option.some.inj hi
  refine Record.optional_induction (P := fun x => x.isFinite = true) ?_ (by decide) hweight
  intro v x hx
  cases v with
  | number n => exact Numeral.isFinite_of_double? hx
  | null => cases hx
  | bool b => cases hx
  | string s => cases hx
  | array items => cases hx
  | object members => cases hx

theorem isFinite_of_listOfJson? {value : Json} {hosts : List Instance}
    (h : listOfJson? value = some hosts) : ∀ i ∈ hosts, i.weight.isFinite = true := by
  simp only [listOfJson?, Option.bind_eq_bind, Option.bind_eq_some_iff] at h
  obtain ⟨items, _, hitems⟩ := h
  intro i hi
  obtain ⟨v, _, hv⟩ := mem_of_mapM hitems hi
  exact isFinite_of_ofJson? hv

end Instance

/-! ## Services -/

namespace Service

theorem spellable_toJson (s : Service) : s.toJson.Spellable := by
  apply spellable_record
  intro m hm
  simp only [List.mem_cons, List.not_mem_nil, or_false] at hm
  rcases hm with rfl | rfl | rfl | rfl | rfl | rfl | rfl
  · exact spellable_ofString _
  · exact spellable_ofString _
  · exact spellable_ofString _
  · exact spellable_ofNat _
  · apply Spellable.array
    intro v hv
    obtain ⟨i, _, rfl⟩ := List.mem_map.mp hv
    exact i.spellable_toJson
  · exact spellable_ofNat _
  · exact spellable_ofString _

/-- What stands for a service: any of its members may be left out, and its hosts are an array of
what stands for them. -/
def slots (s : Service) : List Slot :=
  [.exact "name" (ofString s.name) (s.name = ""),
    .exact "groupName" (ofString s.groupName) (s.groupName = ""),
    .exact "clusters" (ofString s.clusters) (s.clusters = ""),
    .exact "cacheMillis" (ofNat s.cacheMillis.toNat) (s.cacheMillis = defaultCacheMillis),
    { name := "hosts"
      stands := fun v => ∃ values, v = .array values ∧
        List.Forall₂ (fun i w => Fills (Instance.slots i) w) s.hosts values
      omissible := s.hosts = [] },
    .exact "lastRefTime" (ofNat s.lastRefTime.toNat) (s.lastRefTime = 0),
    .exact "checksum" (ofString s.checksum) (s.checksum = "")]

theorem fills_toJson (s : Service) : Fills s.slots s.toJson := by
  have hhosts : ∀ i ∈ s.hosts, Fills (Instance.slots i) i.toJson := fun i _ => i.fills_toJson
  refine ⟨_, rfl, ?_⟩
  simpa [slots, Slot.exact, Slot.FilledBy] using hhosts

/-- The service with the weights that are read for its weights, if all of them are. -/
def reread? (s : Service) : Option Service :=
  (s.hosts.mapM Instance.reread?).map ({ s with hosts := · })

theorem reread?_eq_some {s : Service} (h : ∀ i ∈ s.hosts, i.WeightReadsBack) :
    s.reread? = some s := by
  have hhosts : s.hosts.mapM Instance.reread? = some s.hosts := by
    have hread := mapM_map (f := id) (g := Instance.reread?) (l := s.hosts)
      fun i hi => (h i hi).reread?
    rwa [List.map_id] at hread
  rw [reread?, hhosts, Option.map_some]

/-- Whatever stands for a service is read as it, up to its weights. -/
theorem ofJson?_of_fills {s : Service} {value : Json} (h : Fills s.slots value) :
    ofJson? value = s.reread? := by
  have hfields : s.slots.map Slot.name = fields := rfl
  obtain ⟨r, hr, hhas⟩ := h.exists_record hfields
  simp only [slots, List.forall_mem_cons, List.not_mem_nil, false_implies, implies_true,
    and_true] at hhas
  obtain ⟨hname, hgroup, hclusters, hcache, hhosts, htime, hchecksum⟩ := hhas
  have hhostsValue : r.optional "hosts" Instance.listOfJson? [] =
      s.hosts.mapM Instance.reread? := by
    apply hhosts.optional
    · rintro _ ⟨values, rfl, hvalues⟩
      exact mapM_forall₂ hvalues fun _ _ => Instance.ofJson?_of_fills
    · intro hnone
      rw [hnone]
      rfl
  rw [ofJson?, hr]
  simp only [Option.bind_eq_bind, Option.bind_some, hname.optional_exact (text?_ofString _),
    hgroup.optional_exact (text?_ofString _), hclusters.optional_exact (text?_ofString _),
    hcache.optional_exact (millis?_ofNat _), hhostsValue,
    htime.optional_exact (millis?_ofNat _), hchecksum.optional_exact (text?_ofString _)]
  rw [reread?, Option.map_eq_bind]
  rfl

/-- Whatever becomes of its weights, a service is read from its document. -/
theorem decode?_print_eq (s : Service) : decode? s.print = s.reread? := by
  rw [decode?, print, parse?_print s.spellable_toJson, Option.bind_some,
    ofJson?_of_fills s.fills_toJson]

/-- A service is read back from its document. -/
theorem decode?_print {s : Service} (h : ∀ i ∈ s.hosts, i.WeightReadsBack) :
    decode? s.print = some s := by
  rw [decode?_print_eq, reread?_eq_some h]

/-- Whatever becomes of its weights, what is read of a document has the key of the service. -/
theorem key_of_decode?_print {s t : Service} (h : decode? s.print = some t) : t.key = s.key := by
  rw [decode?_print_eq, reread?] at h
  obtain ⟨hosts, _, rfl⟩ := Option.map_eq_some_iff.mp h
  rfl

theorem isFinite_of_ofJson? {value : Json} {s : Service} (h : ofJson? value = some s) :
    ∀ i ∈ s.hosts, i.weight.isFinite = true := by
  simp only [ofJson?, Option.bind_eq_bind, Option.bind_eq_some_iff] at h
  obtain ⟨r, _, _, _, _, _, _, _, _, _, hosts, hhosts, _, _, _, _, hs⟩ := h
  obtain rfl := Option.some.inj hs
  exact Record.optional_induction (P := fun hosts => ∀ i ∈ hosts, i.weight.isFinite = true)
    (fun _ _ h => Instance.isFinite_of_listOfJson? h) (by simp) hhosts

/-- The weights of a service that is received are finite. -/
theorem isFinite_of_parse? {text : String} {s : Service} (h : parse? text = some s) :
    ∀ i ∈ s.hosts, i.weight.isFinite = true := by
  rw [parse?] at h
  split at h
  · cases h
  · obtain ⟨hdecode, _⟩ := Option.filter_eq_some_iff.mp h
    obtain ⟨value, _, hvalue⟩ := Option.bind_eq_some_iff.mp hdecode
    exact isFinite_of_ofJson? hvalue

end Service

end ServiceDirectory
