import Mathlib.Data.List.TakeWhile
import ServiceDirectory.Api.Routes
import ServiceDirectory.Backend.Request
import ServiceDirectory.Proofs.ClusterNames
import ServiceDirectory.Proofs.Forms
import ServiceDirectory.Proofs.Queries
import ServiceDirectory.Proofs.Routes

/-!
# The interface says what the directory says

A GET request is cut into path and query at marks that no argument in it can bring
along, and each argument is read as it was before it was written there. So a request
does to the directory what the lookup with these arguments does, and its answer is the
document of what the lookup finds. This is so of targets of any length that are let
through to the interface.
-/

namespace ServiceDirectory

/-! ## Documents of several services -/

theorem parseCatalog?_print {services : List Service}
    (h : ∀ s ∈ services, ∀ i ∈ s.hosts, i.WeightReadsBack) :
    parseCatalog? (Json.array (services.map Service.toJson)).print = some services := by
  have hspellable : (Json.array (services.map Service.toJson)).Spellable := by
    apply Json.Spellable.array
    intro value hvalue
    obtain ⟨s, _, rfl⟩ := List.mem_map.mp hvalue
    exact s.spellable_toJson
  have hitems : (services.map Service.toJson).mapM Service.ofJson? = some services := by
    apply Json.mapM_map
    intro s hs
    rw [Service.ofJson?_of_fills s.fills_toJson, Service.reread?_eq_some (h s hs)]
  rw [parseCatalog?, Json.parse?_print hspellable]
  exact hitems

theorem isFinite_of_parseCatalog? {text : String} {services : List Service}
    (h : parseCatalog? text = some services) :
    ∀ s ∈ services, ∀ i ∈ s.hosts, i.weight.isFinite = true := by
  simp only [parseCatalog?, Option.bind_eq_bind, Option.bind_eq_some_iff] at h
  obtain ⟨_, _, items, _, hitems⟩ := h
  intro s hs
  obtain ⟨_, _, hvalue⟩ := Json.mem_of_mapM hitems hs
  exact Service.isFinite_of_ofJson? hvalue

/-! ## What lookups give -/

namespace Directory

/-- What a batch lookup finds has no hosts. -/
theorem hosts_lookupAll (d : Directory) (backend : Backend) (names : List String)
    (clusters : KeyMap String String) (findBack : Bool) :
    ∀ s ∈ (d.lookupAll backend names clusters findBack).1, s.hosts = [] := by
  have hcollect : ∀ e : Directory, ∀ s ∈ (e.collect clusters findBack names).1, s.hosts = [] := by
    intro e s hs
    rw [collect_eq] at hs
    obtain ⟨name, _, rfl⟩ := List.mem_map.mp hs
    rfl
  rw [lookupAll]
  dsimp only
  split
  · exact List.forall_mem_cons.mpr ⟨rfl, hcollect _⟩
  · exact List.forall_mem_cons.mpr ⟨rfl, hcollect _⟩

/-- Asking for a catalog does nothing to the store. -/
theorem store_catalog (d : Directory) (backend : Backend) (namespaceId group clusters : String) :
    (d.catalog backend namespaceId group clusters).2.store =
      (d.receiveAll (backend (.catalog namespaceId group clusters)).meanwhile).store :=
  (((SameEffects.refl d).record_right rfl).receiveAll _).store.symm

theorem isFinite_catalog (d : Directory) (backend : Backend)
    (namespaceId group clusters : String) :
    ∀ s ∈ (d.catalog backend namespaceId group clusters).1,
      ∀ i ∈ s.hosts, i.weight.isFinite = true := by
  intro s hs
  rw [catalog] at hs
  dsimp only at hs
  cases hreply : ((d.record (.asked (.catalog namespaceId group clusters))).await
      (backend (.catalog namespaceId group clusters))).1.bind parseCatalog? with
  | none =>
      rw [hreply] at hs
      cases hs
  | some services =>
      rw [hreply] at hs
      obtain ⟨text, _, htext⟩ := Option.bind_eq_some_iff.mp hreply
      exact isFinite_of_parseCatalog? htext s hs

end Directory

namespace Api

open Text

/-! ## Targets -/

/-- A path without marks that divide targets. -/
structure IsPath (path : String) : Prop where
  rooted : path.toList.head? = some '/'
  noQuery : '?' ∉ path.toList
  noFragment : '#' ∉ path.toList

theorem localPart_eq {target : List Char} (h : target.head? = some '/') :
    localPart target = target := by
  obtain ⟨rest, rfl⟩ := List.head?_eq_some_iff.mp h
  have hslash : Char.isAlphanum '/' = false := by decide
  simp [localPart, hslash, List.isPrefixOf]

theorem Target.ofString_eq {path query : String} (hpath : IsPath path)
    (hquery : '#' ∉ query.toList) : Target.ofString (path ++ "?" ++ query) = ⟨path, query⟩ := by
  have htext : (path ++ "?" ++ query).toList = path.toList ++ '?' :: query.toList := by simp
  have hlocal : localPart (path.toList ++ '?' :: query.toList) =
      path.toList ++ '?' :: query.toList := by
    apply localPart_eq
    rw [List.head?_append, hpath.rooted]
    rfl
  have hwhole : (path.toList ++ '?' :: query.toList).takeWhile (· != '#') =
      path.toList ++ '?' :: query.toList := by
    apply List.takeWhile_eq_self_iff.mpr
    apply forall_bne_of_not_mem
    simp [hpath.noFragment, hquery]
  have hbefore := forall_bne_of_not_mem hpath.noQuery
  rw [Target.ofString, htext, hlocal, hwhole, List.takeWhile_append_of_pos hbefore,
    List.dropWhile_append_of_pos hbefore, List.takeWhile_cons, List.dropWhile_cons]
  simp

theorem respond_get (d : Directory) (backend : Backend) {path query : String} {route : Route}
    (hpath : IsPath path) (hroute : route? path = some route)
    {pairs : List (String × String)} (hquery : Form.Spelled pairs query) :
    respond d backend ⟨"GET", path ++ "?" ++ query⟩ = get d backend route query := by
  have hfragment : '#' ∉ query.toList :=
    hquery.not_mem (by decide) (by decide) (by decide) (by decide)
  rw [respond]
  dsimp only
  rw [Target.ofString_eq hpath hfragment, hroute]
  rfl

theorem isPath_service {name raw : String} (h : SegmentSpelled name raw) :
    IsPath ("/v1/services/" ++ raw) := by
  have hquery : '?' ∉ raw.toList := h.not_mem (by decide) (by decide)
  have hfragment : '#' ∉ raw.toList := h.not_mem (by decide) (by decide)
  constructor
  · rw [String.toList_append, List.head?_append]
    rfl
  · rw [String.toList_append, List.mem_append, not_or]
    exact ⟨by decide, hquery⟩
  · rw [String.toList_append, List.mem_append, not_or]
    exact ⟨by decide, hfragment⟩

/-- The path of a service leads to the service. -/
theorem route?_service {name raw : String} (hname : name ≠ "") (h : SegmentSpelled name raw) :
    route? ("/v1/services/" ++ raw) = some (.service raw) := by
  have hslash : '/' ∉ raw.toList := h.not_mem (by decide) (by decide)
  have hraw : raw.isEmpty = false := by
    have hbytes : Utf8.encode name ≠ [] := by
      intro hnil
      have hread := Utf8.text?_encode name
      rw [hnil] at hread
      exact hname (Option.some.inj hread).symm
    simpa using h.ne_nil hbytes
  have hpieces : ("/v1/services/" ++ raw).toList =
      ['/'].intercalate [[], "v1".toList, "services".toList, raw.toList] := by simp
  have hsplit : ("/v1/services/" ++ raw).toList.splitOn '/' =
      [[], "v1".toList, "services".toList, raw.toList] := by
    rw [hpieces]
    apply List.splitOn_intercalate
    · simp only [List.forall_mem_cons]
      exact ⟨by decide, by decide, by decide, hslash, by simp⟩
    · simp
  rw [route?, hsplit]
  simp [hraw]

/-! ## Arguments -/

/-- Known fields that come once each, with flags that are truth values, are read as they are. -/
theorem readFields_eq {known flags : List String} {pairs fields : Fields}
    (hknown : ∀ pair ∈ pairs, pair.1 ∈ known) (honce : ((fields ++ pairs).map Prod.fst).Nodup)
    (hflags : ∀ pair ∈ pairs, pair.1 ∈ flags → (bool? pair.2).isSome = true) :
    readFields known flags pairs fields = .ok (fields ++ pairs) := by
  induction pairs generalizing fields with
  | nil => rw [List.append_nil, readFields]
  | cons pair rest ih =>
      obtain ⟨name, value⟩ := pair
      obtain ⟨hname, hrest⟩ := List.forall_mem_cons.mp hknown
      obtain ⟨hflag, hflagsRest⟩ := List.forall_mem_cons.mp hflags
      have hnew : (fields.lookup name).isSome = false := by
        have hnotin : name ∉ fields.map Prod.fst := by
          rw [List.map_append, List.map_cons] at honce
          exact fun hin => List.disjoint_of_nodup_append honce hin (by simp)
        rw [Option.isSome_eq_false_iff, Option.isNone_iff_eq_none, List.lookup_eq_none_iff]
        intro pair hpair
        refine bne_iff_ne.mpr ?_
        rintro rfl
        exact hnotin (List.mem_map_of_mem hpair)
      have htrue : (flags.contains name && (bool? value).isNone) = false := by
        by_cases hin : name ∈ flags
        · obtain ⟨flag, hread⟩ := Option.isSome_iff_exists.mp (hflag hin)
          simp [hread]
        · simp [hin]
      have hall : fields ++ (name, value) :: rest = fields ++ [(name, value)] ++ rest := by simp
      rw [hall] at honce ⊢
      rw [readFields, if_pos (List.contains_iff_mem.mpr hname), hnew, htrue]
      exact ih hrest honce hflagsRest

theorem queryFields_eq {known flags : List String} {pairs : List (String × String)}
    {query : String} (h : Form.Spelled pairs query) (hknown : ∀ pair ∈ pairs, pair.1 ∈ known)
    (honce : (pairs.map Prod.fst).Nodup)
    (hflags : ∀ pair ∈ pairs, pair.1 ∈ flags → (bool? pair.2).isSome = true) :
    queryFields known flags query = .ok pairs := by
  rw [queryFields, h.decode]
  exact readFields_eq hknown honce hflags

theorem readService_eq {name raw clusters query : String} (hname : SegmentSpelled name raw)
    (hquery : Form.Spelled [("clusters", clusters)] query) :
    readService raw query = .ok (name, clusters) := by
  have hfields : queryFields ["clusters"] [] query = .ok [("clusters", clusters)] :=
    queryFields_eq hquery (by simp) (by simp) (by simp)
  rw [readService, decodeName, hname.text?, hfields]
  rfl

theorem readCatalog_eq {namespaceId group clusters query : String}
    (hquery : Form.Spelled
      [("namespace", namespaceId), ("group", group), ("clusters", clusters)] query) :
    readCatalog query = .ok (namespaceId, group, clusters) := by
  have hfields : queryFields ["namespace", "group", "clusters"] [] query = .ok _ :=
    queryFields_eq hquery (by simp) (by simp) (by simp)
  rw [readCatalog, hfields]
  rfl

/-- What a text says of the clusters that are wanted: it is an object of texts, of which a later
one for the same service counts, or it says nothing. -/
inductive ClustersSpelled : KeyMap String String → String → Prop
  | map {entries : List (String × String)} {text : String}
      (h : (Json.record (entries.map fun e => (e.1, Json.ofString e.2))).Spelled text) :
      ClustersSpelled (KeyMap.ofList entries) text
  | other {text : String}
      (h : ∀ entries : List (String × String),
        Json.parse? text ≠ some (Json.record (entries.map fun e => (e.1, Json.ofString e.2)))) :
      ClustersSpelled KeyMap.empty text

theorem clustersMap_eq {clusters : KeyMap String String} {text : String}
    (h : ClustersSpelled clusters text) : clustersMap (some text) = clusters := by
  rw [clustersMap, Option.bind_some]
  cases h with
  | map h =>
      rw [Json.parse?_of_spelled h, Option.bind_some, textMap?_record]
      rfl
  | other h =>
      cases hread : (Json.parse? text).bind textMap? with
      | none => rfl
      | some map =>
          obtain ⟨value, hvalue, hmap⟩ := Option.bind_eq_some_iff.mp hread
          obtain ⟨entries, rfl⟩ := exists_entries_of_textMap? hmap
          exact absurd hvalue (h entries)

theorem readBatch_eq {names : List String} {clusters : KeyMap String String} {text query : String}
    {findBack : Bool} (hnames : ∀ name ∈ names, IsPart ',' name)
    (hclusters : ClustersSpelled clusters text)
    (hquery : Form.Spelled [("names", Text.join ',' names), ("clusters", text),
      ("findBack", Query.flagText findBack)] query) :
    readBatch query = .ok ⟨names, clusters, findBack⟩ := by
  have hflag : bool? (Query.flagText findBack) = some findBack := by cases findBack <;> rfl
  have hfields : queryFields ["names", "clusters", "findBack"] ["findBack"] query = .ok _ :=
    queryFields_eq hquery (by simp) (by simp) (by simp [hflag])
  have hread : readBatch query =
      .ok ⟨parts ',' (Text.join ',' names), clustersMap (some text),
        Query.flagText findBack == "true"⟩ := by
    rw [readBatch, hfields]
    rfl
  have hback : (Query.flagText findBack == "true") = findBack := by cases findBack <;> rfl
  rw [hread, parts_join hnames, clustersMap_eq hclusters, hback]

/-! ## Answers -/

/-- What the lookups of the directory find and do, the interface answers and does. -/
structure IsFacade (d : Directory) (backend : Backend) : Prop where
  /-- One service, its name written in the path. -/
  service : ∀ name clusters raw query found after, name ≠ "" → SegmentSpelled name raw →
    Form.Spelled [("clusters", clusters)] query →
    d.lookup backend name clusters = (found, after) →
      respond d backend ⟨"GET", "/v1/services/" ++ raw ++ "?" ++ query⟩ =
          (json found.toJson, after) ∧
        ((∀ i ∈ found.hosts, i.weight.isFinite = true ∧ i.weight.ReadsBack) →
          Service.decode? (json found.toJson).body = some found)
  /-- Several services. The backend is asked for all of them, under the names that were given. -/
  services : ∀ names clusters text findBack query found after, names ≠ [] →
    (∀ name ∈ names, IsPart ',' name) → ClustersSpelled clusters text →
    Form.Spelled [("names", Text.join ',' names), ("clusters", text),
      ("findBack", Query.flagText findBack)] query →
    d.lookupAll backend names clusters findBack = (found, after) →
      respond d backend ⟨"GET", "/v1/services" ++ "?" ++ query⟩ =
          (json (.array (found.map Service.toJson)), after) ∧
        parseCatalog? (json (.array (found.map Service.toJson))).body = some found ∧
        ∃ asked, after.queries = d.queries ++ asked ∧ ∀ question ∈ asked, ∃ joined,
          question = .batch joined clusters d.policy.pushPort false findBack ∧
            (joined.toList.splitOn ',').map String.ofList = names
  /-- A catalog. The store takes in what comes by other ways meanwhile, and nothing else. -/
  catalog : ∀ namespaceId group clusters query found after,
    Form.Spelled
      [("namespace", namespaceId), ("group", group), ("clusters", clusters)] query →
    d.catalog backend namespaceId group clusters = (found, after) →
      respond d backend ⟨"GET", "/v1/catalog" ++ "?" ++ query⟩ =
          (json (.array (found.map Service.toJson)), after) ∧
        after.store =
          (d.receiveAll (backend (.catalog namespaceId group clusters)).meanwhile).store ∧
        ((∀ s ∈ found, ∀ i ∈ s.hosts, i.weight.ReadsBack) →
          parseCatalog? (json (.array (found.map Service.toJson))).body = some found)

/-- Whatever way a name is written in a path and arguments in a form, they are the arguments of the
lookup, and what it finds can be read from the answer. -/
theorem interface_is_facade (d : Directory) (backend : Backend) : IsFacade d backend where
  service := by
    intro name clusters raw query found after hname hraw hquery hfound
    have hresponse := respond_get d backend (isPath_service hraw) (route?_service hname hraw) hquery
    simp only [get, readService_eq hraw hquery, hfound] at hresponse
    exact ⟨hresponse, fun hweights => Service.decode?_print hweights⟩
  services := by
    intro names clusters text findBack query found after hnonempty hnames hclusters hquery hfound
    have hpath : IsPath "/v1/services" := ⟨by decide, by decide, by decide⟩
    have hroute : route? "/v1/services" = some .services := by decide
    have hresponse := respond_get d backend hpath hroute hquery
    simp only [get, readBatch_eq hnames hclusters hquery, hfound] at hresponse
    have hhosts := d.hosts_lookupAll backend names clusters findBack
    have hqueries := d.queries_lookupAll backend names clusters findBack
    rw [hfound] at hhosts hqueries
    refine ⟨hresponse, parseCatalog?_print ?_, ?_⟩
    · intro s hs i hi
      rw [hhosts s hs] at hi
      cases hi
    · obtain ⟨asked, hasked, hbatch⟩ := hqueries
      refine ⟨asked, hasked, fun question hquestion => ⟨Text.join ',' names, ?_, ?_⟩⟩
      · rcases hbatch with rfl | rfl
        · cases hquestion
        · exact List.mem_singleton.mp hquestion
      · rw [splitOn_join hnonempty fun name hname => (hnames name hname).unseparated, List.map_map]
        simp
  catalog := by
    intro namespaceId group clusters query found after hquery hfound
    have hpath : IsPath "/v1/catalog" := ⟨by decide, by decide, by decide⟩
    have hroute : route? "/v1/catalog" = some .catalog := by decide
    have hresponse := respond_get d backend hpath hroute hquery
    simp only [get, readCatalog_eq hquery, hfound] at hresponse
    have hstore := d.store_catalog backend namespaceId group clusters
    have hfinite := d.isFinite_catalog backend namespaceId group clusters
    rw [hfound] at hstore hfinite
    refine ⟨hresponse, hstore, fun hreads => parseCatalog?_print ?_⟩
    exact fun s hs i hi => ⟨hfinite s hs i hi, hreads s hs i hi⟩

/-- A backend that never answers. -/
def silent : Backend := fun _ => { reply := none, conditions := fun _ => default }

/-- A slash and a letter beyond ASCII in a name, with digits of both cases. -/
theorem segmentSpelled_slashed : SegmentSpelled "a/ü" "a%2f%C3%BC" := by
  have hbytes : Utf8.encode "a/ü" = [0x61, 0x2F, 0xC3, 0xBC] := by decide
  rw [SegmentSpelled, hbytes]
  have htwo : IsHexDigit '2' 2 := ⟨by decide, by decide⟩
  have hfifteen : IsHexDigit 'f' 15 := ⟨by decide, by decide⟩
  have hC : IsHexDigit 'C' 12 := ⟨by decide, by decide⟩
  have hthree : IsHexDigit '3' 3 := ⟨by decide, by decide⟩
  have hB : IsHexDigit 'B' 11 := ⟨by decide, by decide⟩
  exact .alone (by decide) (.escape htwo hfifteen (.escape hC hthree (.escape hB hC .nil)))

theorem written_requests_served :
    (respond {} silent ⟨"GET", "/v1/services/a%2f%C3%BC?clusters=x%2Cy+z"⟩).2 =
        (Directory.lookup {} silent "a/ü" "x,y z").2 ∧
      (respond {} silent ⟨"GET",
          "/v1/services?names=a%2Cb&clusters=%7B%22b%22%3A%22x%22%7D&findBack=true"⟩).2 =
        (Directory.lookupAll {} silent ["a", "b"] (KeyMap.ofList [("b", "x")]) true).2 ∧
      (respond {} silent ⟨"GET", "/v1/catalog?namespace=&group=g%26h&clusters=c"⟩).2 =
        (Directory.catalog {} silent "" "g&h" "c").2 := by
  have hfacade := interface_is_facade {} silent
  refine ⟨?_, ?_, ?_⟩
  · have hserved := hfacade.service "a/ü" "x,y z" _ _ _ _ (by decide) segmentSpelled_slashed
      (Form.spelled_encode _) (Prod.eta _).symm
    exact congrArg Prod.snd hserved.1
  · have hparts : parts ',' "a,b" = ["a", "b"] := by decide
    have hnames : ∀ name ∈ ["a", "b"], IsPart ',' name := fun name hname =>
      isPart_of_mem_parts (hparts ▸ hname)
    have hclusters : ClustersSpelled (KeyMap.ofList [("b", "x")])
        (Json.record [("b", Json.ofString "x")]).print :=
      .map (spellable_textMapJson (KeyMap.ofList [("b", "x")])).spelled_print
    have hserved := hfacade.services ["a", "b"] _ _ true _ _ _ (by simp) hnames hclusters
      (Form.spelled_encode _) (Prod.eta _).symm
    exact congrArg Prod.snd hserved.1
  · have hserved := hfacade.catalog "" "g&h" "c" _ _ _ (Form.spelled_encode _) (Prod.eta _).symm
    exact congrArg Prod.snd hserved.1

end Api

end ServiceDirectory
