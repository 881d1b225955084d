import ServiceDirectory.Proofs.Queries

/-!
# What a batch lookup gives

A batch lookup answers from one state of the directory: the state that it finds, if that
knows any of the services, and else the one after a single question for all of them.
Each service that is known there is answered by a placeholder, which is also put in
the place of its snapshot, so the answer tells which services are known and nothing more
of them, and everything else stays as it was.
-/

namespace ServiceDirectory.Directory

/-- The key of a service with the clusters wanted of it. -/
def keyFor (clusters : KeyMap String String) (name : String) : ServiceKey :=
  ServiceKey.of name (clustersFor clusters name)

/-- The directory that a batch lookup answers from. -/
def consulted (d : Directory) (backend : Backend) (names : List String)
    (clusters : KeyMap String String) (findBack : Bool) : Directory :=
  if names.any fun name => d.store.contains (keyFor clusters name) then d
  else d.refreshAll backend names clusters findBack

variable {d : Directory} {backend : Backend} {names : List String}
  {clusters : KeyMap String String} {findBack : Bool}

/-! ## Placeholders for several services -/

theorem stamps_places (d : Directory) (clusters : KeyMap String String) (names : List String) :
    (d.run (names.map (placeFor clusters))).store.stamps = d.store.stamps := by
  induction names generalizing d with
  | nil => rfl
  | cons name rest ih => exact ih _

theorem events_places (d : Directory) (clusters : KeyMap String String) (names : List String) :
    (d.run (names.map (placeFor clusters))).events = d.events := by
  induction names generalizing d with
  | nil => rfl
  | cons name rest ih => exact ih _

/-- Under the key of a name stands the placeholder of that name. No other name has the key, so it
makes no difference in what order they are placed, or whether one comes again. -/
theorem get?_places (d : Directory) (clusters : KeyMap String String) (names : List String)
    (key : ServiceKey) :
    (d.run (names.map (placeFor clusters))).store.get? key =
      if key ∈ names.map (keyFor clusters) then
        some (Service.placeholder key.name (clustersFor clusters key.name))
      else d.store.get? key := by
  induction names generalizing d with
  | nil => rfl
  | cons name rest ih =>
      have hfirst : (d.step (placeFor clusters name)).store.get? key =
          if keyFor clusters name = key then
            some (Service.placeholder name (clustersFor clusters name))
          else d.store.get? key := Store.get?_set ..
      rw [List.map_cons, run_cons, ih, hfirst]
      by_cases hrest : key ∈ rest.map (keyFor clusters)
      · rw [if_pos hrest, List.map_cons, if_pos (List.mem_cons_of_mem _ hrest)]
      · by_cases hkey : keyFor clusters name = key
        · have hname : key.name = name := hkey ▸ rfl
          rw [if_neg hrest, if_pos hkey, hname, List.map_cons, hkey, if_pos List.mem_cons_self]
        · rw [if_neg hrest, if_neg hkey, List.map_cons, if_neg]
          simp only [List.mem_cons, not_or]
          exact ⟨fun h => hkey h.symm, hrest⟩

/-- Placeholders for services that are known bring no new key. -/
theorem contains_places (hknown : ∀ name ∈ names, d.store.contains (keyFor clusters name) = true)
    (key : ServiceKey) :
    (d.run (names.map (placeFor clusters))).store.contains key = d.store.contains key := by
  rw [Store.contains_eq, get?_places]
  split
  · rename_i hkey
    obtain ⟨name, hname, rfl⟩ := List.mem_map.mp hkey
    rw [hknown name hname]
    rfl
  · rfl

/-! ## What is answered -/

theorem contains_of_mem_answered {name : String}
    (h : name ∈ d.answered clusters findBack names) :
    d.store.contains (keyFor clusters name) = true := by
  rw [answered] at h
  cases findBack with
  | false => exact (List.mem_filter.mp h).2
  | true => exact (List.mem_filter.mp (List.mem_of_mem_take h)).2

theorem answered_eq_nil_iff :
    d.answered clusters findBack names = [] ↔
      (names.any fun name => d.store.contains (keyFor clusters name)) = false := by
  have hfilter : (names.filter fun name => d.store.contains (keyFor clusters name)) = [] ↔
      (names.any fun name => d.store.contains (keyFor clusters name)) = false := by
    rw [List.filter_eq_nil_iff, List.any_eq_false]
  rw [← hfilter, answered]
  cases findBack with
  | false => rfl
  | true => simp [keyFor]

theorem consulted_of_contains {name : String} (hname : name ∈ names)
    (hknown : d.store.contains (keyFor clusters name) = true) :
    d.consulted backend names clusters findBack = d := by
  rw [consulted, if_pos]
  exact List.any_eq_true.mpr ⟨name, hname, hknown⟩

theorem consulted_of_unknown
    (hnone : ∀ name ∈ names, d.store.contains (keyFor clusters name) = false) :
    d.consulted backend names clusters findBack =
      d.refreshAll backend names clusters findBack := by
  rw [consulted, if_neg]
  rw [Bool.not_eq_true, List.any_eq_false]
  intro name hname
  rw [hnone name hname]
  exact Bool.false_ne_true

/-- A batch lookup collects its answers in the directory that it consults. -/
theorem lookupAll_eq (d : Directory) (backend : Backend) (names : List String)
    (clusters : KeyMap String String) (findBack : Bool) :
    d.lookupAll backend names clusters findBack =
      let settled := d.consulted backend names clusters findBack
      ({} :: (settled.answered clusters findBack names).map fun name =>
          Service.placeholder name (clustersFor clusters name),
        settled.run ((settled.answered clusters findBack names).map (placeFor clusters))) := by
  simp only [lookupAll, collect_eq, List.isEmpty_map, consulted]
  cases hany : names.any fun name => d.store.contains (keyFor clusters name) with
  | false =>
      have hnil : d.answered clusters findBack names = [] := answered_eq_nil_iff.mpr hany
      simp [hnil]
  | true =>
      have hnonempty : d.answered clusters findBack names ≠ [] := by
        intro hnil
        rw [answered_eq_nil_iff.mp hnil] at hany
        cases hany
      simp [hnonempty]

/-- What a batch lookup comes to that answers from a state `settled` of the directory. -/
structure Collected (d settled : Directory) (answer : Answer) (names : List String)
    (clusters : KeyMap String String) (findBack : Bool) (found : List Service)
    (after : Directory) : Prop where
  /-- If any of the services is known, nothing is asked, written or published. -/
  known : (∃ name ∈ names, d.store.contains (keyFor clusters name) = true) →
    settled = d ∧ after.events = d.events
  /-- If none is, there is one question for all, and what it brings is taken in. -/
  unknown : (∀ name ∈ names, d.store.contains (keyFor clusters name) = false) →
    let query := .batch (Text.join ',' names) clusters d.policy.pushPort false findBack
    settled = d.run (querySteps query answer answer.batch) ∧ after.queries = d.queries ++ [query]
  found : found = {} :: (settled.answered clusters findBack names).map fun name =>
    Service.placeholder name (clustersFor clusters name)
  /-- What is answered stands in the store. -/
  placed : ∀ name ∈ settled.answered clusters findBack names,
    after.store.get? (keyFor clusters name) =
      some (Service.placeholder name (clustersFor clusters name))
  others : ∀ key, key ∉ (settled.answered clusters findBack names).map (keyFor clusters) →
    after.store.get? key = settled.store.get? key
  keys : ∀ key, after.store.contains key = settled.store.contains key
  stamps : after.store.stamps = settled.store.stamps
  events : after.events = settled.events

/-- A batch lookup asks exactly if it finds none of the services, and then once. From then on it
only replaces the snapshots of the services that it answers, all that are known or with `findBack`
the first of them, by the placeholders that it gives. -/
theorem lookupAll_answers (d : Directory) (backend : Backend) (names : List String)
    (clusters : KeyMap String String) (findBack : Bool) :
    let query := .batch (Text.join ',' names) clusters d.policy.pushPort false findBack
    let result := d.lookupAll backend names clusters findBack
    d.Collected (d.consulted backend names clusters findBack) (backend query) names clusters
      findBack result.1 result.2 := by
  intro query result
  have hresult : result = _ := lookupAll_eq d backend names clusters findBack
  rw [hresult]
  constructor
  case known =>
    rintro ⟨name, hname, hknown⟩
    rw [consulted_of_contains hname hknown]
    exact ⟨rfl, events_places ..⟩
  case unknown =>
    intro hnone
    rw [consulted_of_unknown hnone]
    constructor
    · rw [← run_refreshAllSteps]
      rfl
    · calc
        ((d.refreshAll backend names clusters findBack).run _).queries =
            (d.refreshAll backend names clusters findBack).queries := by
          rw [queries, events_places, queries]
        _ = d.queries ++ [query] := queries_refreshAll ..
  case found => rfl
  case placed =>
    intro name hname
    rw [get?_places, if_pos (List.mem_map_of_mem hname)]
    rfl
  case others =>
    intro key hkey
    rw [get?_places, if_neg hkey]
  case keys => exact contains_places fun name hname => contains_of_mem_answered hname
  case stamps => exact stamps_places ..
  case events => exact events_places ..

/-- The query fails, but a document of one of the services comes while it is under way. -/
def overtaken : Backend := fun _ =>
  { meanwhile := [⟨"[\"a\",\"\",\"y\",1000,[[\"\",\"10.0.0.1\",80]]]", { clock := 7 }⟩],
    reply := none,
    conditions := fun _ => { clock := 8 } }

/-- One service is asked for twice, and one has no name. -/
theorem overtaken_looked_up :
    let names := ["a", "", "b", "a"]
    let clusters := KeyMap.ofList [("a", "y,,")]
    ∃ after, ({} : Directory).lookupAll overtaken names clusters false =
        ([{}, Service.placeholder "a" "y,,", Service.placeholder "a" "y,,"], after) ∧
      after.queries = [.batch "a,,b,a" clusters 0 false false] ∧
      after.store.get? ⟨"a", "y"⟩ = some (Service.placeholder "a" "y,,") ∧
      after.store.lastRefresh ⟨"a", "y"⟩ = 7 := by
  intro names clusters
  have hanswers := lookupAll_answers {} overtaken names clusters false
  have hanswered : (({} : Directory).consulted overtaken names clusters false).answered clusters
      false names = ["a", "a"] := by
    decide +kernel
  have hstamp : (({} : Directory).consulted overtaken names clusters false).store.stamps.get?
      ⟨"a", "y"⟩ = some 7 := by
    decide +kernel
  have hkey : keyFor clusters "a" = ⟨"a", "y"⟩ := by decide +kernel
  have hwanted : clustersFor clusters "a" = "y,," := by decide +kernel
  generalize ({} : Directory).consulted overtaken names clusters false = settled
    at hanswers hanswered hstamp
  generalize ({} : Directory).lookupAll overtaken names clusters false = result at hanswers ⊢
  obtain ⟨found, after⟩ := result
  have hfound := hanswers.found
  have hplaced := hanswers.placed "a"
  rw [hanswered, hkey, hwanted] at hplaced
  rw [hanswered, List.map_cons, List.map_cons, List.map_nil, hwanted] at hfound
  have hnone : ∀ name ∈ names,
      ({} : Directory).store.contains (keyFor clusters name) = false := fun _ _ => rfl
  refine ⟨after, ?_, (hanswers.unknown hnone).2, hplaced List.mem_cons_self, ?_⟩
  · rw [Prod.mk.injEq]
    exact ⟨hfound, rfl⟩
  · rw [Store.lastRefresh, hanswers.stamps, hstamp]
    rfl

end ServiceDirectory.Directory
