import ServiceDirectory.Proofs.Restart
import ServiceDirectory.Proofs.Routes
import ServiceDirectory.Proofs.Stamps

/-!
# Outages

A backend that is down fails its queries, or answers with texts that cannot be read.
What operations do then are futile steps: they ask, they take in documents that are
no services, and they put placeholders where nothing was. Such steps leave all that
was known as it was, in whatever order the operations make them.
-/

namespace ServiceDirectory

/-- The text of a reply that the query has no use for. -/
def Query.Unreadable : Query → String → Prop
  | .single .., text => Service.parse? text = none
  | .batch .., text =>
    ∀ documents, parseBatch? text = some documents → ∀ t ∈ documents, Service.parse? t = none
  | .catalog .., text => parseCatalog? text = none

/-- The answer to a query that brings nothing: it failed, or its reply is blank or unreadable, and
what arrived meanwhile was unreadable too. -/
structure Answer.IsFutile (answer : Answer) (query : Query) : Prop where
  meanwhile : ∀ a ∈ answer.meanwhile, Service.parse? a.text = none
  reply : ∀ text, answer.reply = some text → Text.allBlank text = true ∨ query.Unreadable text

/-- A backend none of whose answers bring anything. -/
def Backend.IsDown (backend : Backend) : Prop := ∀ query, (backend query).IsFutile query

/-- An operation that turns to a backend that is down, if it turns to one at all. What a scheduler
sends off is a refresh. -/
def Operation.MeetsOutage : Operation → Prop
  | .refresh backend _ _ | .refreshAll backend _ _ _ | .lookup backend _ _
  | .catalog backend _ _ _ => Backend.IsDown backend
  | .receive _ | .ingest _ _ | .lookupAll _ _ _ _ | .load _ => False

namespace Answer

variable {answer : Answer} {query : Query}

/-- What is left of a reply when it is not blank. -/
theorem IsFutile.unreadable (h : answer.IsFutile query) {text : String}
    (htext : answer.reply.filter (!Text.allBlank ·) = some text) : query.Unreadable text := by
  obtain ⟨hreply, hblank⟩ := Option.filter_eq_some_iff.mp htext
  rcases h.reply text hreply with hall | hunreadable
  · rw [hall] at hblank
    cases hblank
  · exact hunreadable

theorem IsFutile.single {name clusters : String} {port : UInt16} {healthyOnly : Bool}
    (h : answer.IsFutile (.single name clusters port healthyOnly)) :
    ∀ a ∈ answer.single, Service.parse? a.text = none := by
  intro a ha
  rw [Answer.single] at ha
  split at ha
  · rename_i text htext
    rw [List.mem_singleton.mp ha]
    exact h.unreadable htext
  · cases ha

theorem IsFutile.batch {names : String} {clusters : KeyMap String String} {port : UInt16}
    {healthyOnly findBack : Bool}
    (h : answer.IsFutile (.batch names clusters port healthyOnly findBack)) :
    ∀ a ∈ answer.batch, Service.parse? a.text = none := by
  intro a ha
  rw [Answer.batch] at ha
  split at ha
  · rename_i documents hdocuments
    obtain ⟨text, htext, hparse⟩ := Option.bind_eq_some_iff.mp hdocuments
    obtain ⟨i, hi, harrival⟩ := List.mem_mapIdx.mp (List.mem_of_mem_filter ha)
    rw [← harrival]
    exact h.unreadable htext documents hparse _ (List.getElem_mem hi)
  · cases ha

end Answer

namespace Directory

/-! ## Futile steps -/

/-- A step that brings nothing. -/
def Step.IsFutile (d : Directory) : Step → Prop
  | .ask _ => True
  | .place name clusters => d.store.get? (ServiceKey.of name clusters) = none
  | .take a => Service.parse? a.text = none
  | .load _ => False

/-- Each step of the run brings nothing. -/
def Futile (d : Directory) : List Step → Prop
  | [] => True
  | s :: rest => s.IsFutile d ∧ (d.step s).Futile rest

variable {d e : Directory}

theorem futile_append {first rest : List Step} :
    d.Futile (first ++ rest) ↔ d.Futile first ∧ (d.run first).Futile rest := by
  induction first generalizing d with
  | nil => simp [Futile]
  | cons s first ih => simp [Futile, ih, and_assoc]

theorem futile_take {arrivals : List Arrival}
    (h : ∀ a ∈ arrivals, Service.parse? a.text = none) : d.Futile (arrivals.map .take) := by
  induction arrivals generalizing d with
  | nil => trivial
  | cons a rest ih =>
      exact ⟨h a List.mem_cons_self, ih fun b hb => h b (List.mem_cons_of_mem _ hb)⟩

theorem futile_querySteps {query : Query} {answer : Answer} {documents : List Arrival}
    (h : answer.IsFutile query) (hdocuments : ∀ a ∈ documents, Service.parse? a.text = none) :
    d.Futile (querySteps query answer documents) :=
  ⟨trivial, futile_take (List.forall_mem_append.mpr ⟨h.meanwhile, hdocuments⟩)⟩

/-- Whatever an operation does in an outage is futile. -/
theorem futile_stepsOf (d : Directory) {operation : Operation} (h : operation.MeetsOutage) :
    d.Futile (d.stepsOf operation) := by
  cases operation with
  | receive arrival => cases h
  | ingest event c => cases h
  | refresh backend name clusters => exact futile_querySteps (h _) (h _).single
  | refreshAll backend names clusters findBack => exact futile_querySteps (h _) (h _).batch
  | lookup backend name clusters =>
      rw [stepsOf]
      split
      · trivial
      · rename_i hmiss
        refine ⟨?_, futile_querySteps (h _) (h _).single⟩
        exact Store.contains_eq_false_iff.mp (Bool.not_eq_true _ ▸ hmiss)
  | lookupAll backend names clusters findBack => cases h
  | catalog backend namespaceId group clusters =>
      exact futile_querySteps (h _) (List.forall_mem_nil _)
  | load readings => cases h

theorem futile_trace (d : Directory) {history : List Operation}
    (h : ∀ operation ∈ history, operation.MeetsOutage) : d.Futile (d.trace history) := by
  induction history generalizing d with
  | nil => trivial
  | cons operation rest ih =>
      rw [trace, futile_append, run_stepsOf]
      exact ⟨futile_stepsOf d (h operation List.mem_cons_self),
        ih _ fun o ho => h o (List.mem_cons_of_mem _ ho)⟩

/-! ## What they leave as it was -/

/-- All that was known before is known after, with its stamps, and nobody was told anything. -/
structure Spared (d e : Directory) : Prop where
  snapshots : ∀ key s, d.store.get? key = some s → e.store.get? key = some s
  stamps : e.store.stamps = d.store.stamps
  effects : e.effects = d.effects

theorem Spared.refl (d : Directory) : d.Spared d := ⟨fun _ _ h => h, rfl, rfl⟩

theorem Spared.trans {f : Directory} (h : d.Spared e) (h' : e.Spared f) : d.Spared f where
  snapshots key s hs := h'.snapshots key s (h.snapshots key s hs)
  stamps := h'.stamps.trans h.stamps
  effects := h'.effects.trans h.effects

theorem Step.IsFutile.spared {s : Step} (h : s.IsFutile d) : d.Spared (d.step s) := by
  cases s with
  | ask query =>
      refine ⟨fun _ _ h => h, rfl, ?_⟩
      exact ((SameEffects.refl d).record_right rfl).effects.symm
  | place name clusters =>
      refine ⟨fun key t ht => ?_, rfl, rfl⟩
      rw [step, putPlaceholder_store, Store.get?_set, if_neg]
      · exact ht
      · rintro rfl
        rw [h] at ht
        cases ht
  | take a =>
      rw [step, receive_of_parse?_eq_none d h]
      exact ⟨fun _ _ h => h, rfl, ((SameEffects.refl d).record_right rfl).effects.symm⟩
  | load readings => cases h

theorem Futile.spared {steps : List Step} (h : d.Futile steps) : d.Spared (d.run steps) := by
  induction steps generalizing d with
  | nil => exact .refl d
  | cons s rest ih => exact h.1.spared.trans (ih h.2)

/-- What is on disk depends on the writes alone. -/
theorem following_effects (archive : Archive) (d : Directory) :
    archive.following d.effects = archive.following d.events :=
  archive.following_filter fun _ _ _ => rfl

theorem Spared.following (h : d.Spared e) (archive : Archive) :
    archive.following e.events = archive.following d.events := by
  rw [← following_effects archive e, h.effects, following_effects]

/-! ## What they add -/

/-- Whatever is new after a futile step is a placeholder that the step put there. -/
theorem Step.IsFutile.added {s : Step} (h : s.IsFutile d) {key : ServiceKey} {t : Service}
    (ht : (d.step s).store.get? key = some t) :
    d.store.get? key = some t ∨ ∃ name clusters, s = .place name clusters ∧
      key = ServiceKey.of name clusters ∧ t = Service.placeholder name clusters := by
  cases s with
  | ask query => exact Or.inl ht
  | place name clusters =>
      rcases Store.get?_set_eq_some_iff.mp ht with ⟨hkey, hplaceholder⟩ | ⟨_, hold⟩
      · exact Or.inr ⟨name, clusters, rfl, hkey.symm, hplaceholder.symm⟩
      · exact Or.inl hold
  | take a =>
      rw [step, receive_of_parse?_eq_none d h] at ht
      exact Or.inl ht
  | load readings => cases h

theorem Futile.added {steps : List Step} (h : d.Futile steps) {key : ServiceKey} {t : Service}
    (ht : (d.run steps).store.get? key = some t) :
    d.store.get? key = some t ∨ ∃ name clusters, .place name clusters ∈ steps ∧
      key = ServiceKey.of name clusters ∧ t = Service.placeholder name clusters := by
  induction steps generalizing d with
  | nil => exact Or.inl ht
  | cons s rest ih =>
      rcases ih h.2 ht with ht | ⟨name, clusters, hmem, hnew⟩
      · rcases h.1.added ht with hold | ⟨name, clusters, rfl, hnew⟩
        · exact Or.inl hold
        · exact Or.inr ⟨name, clusters, List.mem_cons_self, hnew⟩
      · exact Or.inr ⟨name, clusters, List.mem_cons_of_mem _ hmem, hnew⟩

theorem not_place_mem_querySteps (query : Query) (answer : Answer) (documents : List Arrival)
    (name clusters : String) : .place name clusters ∉ querySteps query answer documents := by
  simp [querySteps]

/-- Only lookups put placeholders in an outage. -/
theorem exists_lookup_of_place {operation : Operation} (h : operation.MeetsOutage)
    {name clusters : String} (hmem : .place name clusters ∈ d.stepsOf operation) :
    ∃ backend, operation = .lookup backend name clusters := by
  cases operation with
  | receive arrival => cases h
  | ingest event c => cases h
  | refresh backend n c => exact absurd hmem (not_place_mem_querySteps _ _ _ _ _)
  | refreshAll backend names c findBack => exact absurd hmem (not_place_mem_querySteps _ _ _ _ _)
  | lookup backend n c =>
      rw [stepsOf] at hmem
      split at hmem
      · cases hmem
      · rcases List.mem_cons.mp hmem with hplace | hmem
        · obtain ⟨rfl, rfl⟩ := Step.place.inj hplace
          exact ⟨backend, rfl⟩
        · exact absurd hmem (not_place_mem_querySteps _ _ _ _ _)
  | lookupAll backend names c findBack => cases h
  | catalog backend namespaceId group c => exact absurd hmem (not_place_mem_querySteps _ _ _ _ _)
  | load readings => cases h

theorem exists_lookup_of_place_trace {history : List Operation}
    (h : ∀ operation ∈ history, operation.MeetsOutage) {name clusters : String}
    (hmem : .place name clusters ∈ d.trace history) :
    ∃ backend, .lookup backend name clusters ∈ history := by
  induction history generalizing d with
  | nil => cases hmem
  | cons operation rest ih =>
      rcases List.mem_append.mp hmem with hmem | hmem
      · obtain ⟨backend, rfl⟩ := exists_lookup_of_place (h _ List.mem_cons_self) hmem
        exact ⟨backend, List.mem_cons_self⟩
      · obtain ⟨backend, hlookup⟩ := ih (fun o ho => h o (List.mem_cons_of_mem _ ho)) hmem
        exact ⟨backend, List.mem_cons_of_mem _ hlookup⟩

/-! ## What callers get -/

theorem lookup_of_get? {name clusters : String} {s : Service}
    (hs : d.store.get? (ServiceKey.of name clusters) = some s) (backend : Backend) :
    d.lookup backend name clusters = (s, d) := by
  simp only [lookup, hs]

theorem catalog_of_isDown (d : Directory) {backend : Backend} (h : Backend.IsDown backend)
    (namespaceId group clusters : String) :
    (d.catalog backend namespaceId group clusters).1 = [] := by
  rw [catalog, await]
  cases hreply : (backend (.catalog namespaceId group clusters)).reply.filter
      (!Text.allBlank ·) with
  | none => rfl
  | some text =>
      have hnone : parseCatalog? text = none := (h _).unreadable hreply
      simp only [Option.bind_some, hnone]
      rfl

/-- All entries that are new are placeholders that somebody asked for, and have no stamp. -/
def AddsPlaceholders (d e : Directory) (asked : String → String → Prop) : Prop :=
  ∀ key t, d.store.get? key = none → e.store.get? key = some t →
    e.store.stamps.get? key = none ∧ ∃ name clusters, asked name clusters ∧
      key = ServiceKey.of name clusters ∧ t = Service.placeholder name clusters

theorem Futile.addsPlaceholders {steps : List Step} (h : d.Futile steps)
    (hheld : StampsHeld d.store) :
    d.AddsPlaceholders (d.run steps) fun name clusters => .place name clusters ∈ steps := by
  intro key t hnone ht
  constructor
  · rw [h.spared.stamps]
    cases hstamp : d.store.stamps.get? key with
    | none => rfl
    | some time =>
        have hcontains := hheld key time hstamp
        rw [Store.contains_eq_false_iff.mpr hnone] at hcontains
        cases hcontains
  · rcases h.added ht with hold | hnew
    · cases hnone.symm.trans hold
    · exact hnew

theorem AddsPlaceholders.mono {asked wanted : String → String → Prop}
    (h : d.AddsPlaceholders e asked)
    (hasked : ∀ name clusters, asked name clusters → wanted name clusters) :
    d.AddsPlaceholders e wanted := by
  intro key t hnone ht
  obtain ⟨hstamp, name, clusters, hmem, hnew⟩ := h key t hnone ht
  exact ⟨hstamp, name, clusters, hasked name clusters hmem, hnew⟩

/-- From every state that a directory can come to, after operations that turn to backends that are
down: all snapshots and stamps are those from before, nothing was written or published, the disk is
the same, and new entries are unstamped placeholders of services that were looked up. On the way
each lookup of a service that was known gives its snapshot and does nothing else, and each query of
a catalog gives no services. And it makes no difference in what order the steps of operations that
are under way at the same time are made. -/
theorem outage_costs_nothing (policy : Policy) (loadFromDisk : Bool)
    (readings : Option (KeyMap ServiceKey Service)) (reached : List Step) (d : Directory)
    (hd : d = (start policy loadFromDisk readings).run reached) (history : List Operation)
    (hdown : ∀ operation ∈ history, operation.MeetsOutage) :
    d.Spared (d.after history) ∧
      (∀ archive : Archive,
        archive.following (d.after history).events = archive.following d.events) ∧
      d.AddsPlaceholders (d.after history)
        (fun name clusters => ∃ backend, .lookup backend name clusters ∈ history) ∧
      (∀ before backend name clusters rest,
        history = before ++ .lookup backend name clusters :: rest →
        ∀ s, d.store.get? (ServiceKey.of name clusters) = some s →
          (d.after before).lookup backend name clusters = (s, d.after before)) ∧
      (∀ before backend namespaceId group clusters rest,
        history = before ++ .catalog backend namespaceId group clusters :: rest →
          ((d.after before).catalog backend namespaceId group clusters).1 = []) ∧
      ∀ steps, d.Futile steps → d.Spared (d.run steps) ∧
        (∀ archive : Archive,
          archive.following (d.run steps).events = archive.following d.events) ∧
        d.AddsPlaceholders (d.run steps) fun name clusters => .place name clusters ∈ steps := by
  have hheld : StampsHeld d.store := by
    rw [hd]
    apply stampsHeld_run
    intro key time htime
    rw [start_stamps] at htime
    cases htime
  have hfutile := futile_trace d hdown
  have hspared := hfutile.spared
  have hadds := (hfutile.addsPlaceholders hheld).mono fun name clusters hmem =>
    exists_lookup_of_place_trace hdown hmem
  rw [run_trace] at hspared hadds
  refine ⟨hspared, hspared.following, hadds, ?_, ?_, ?_⟩
  -- what was known at the start is still known when the lookup comes
  · rintro before backend name clusters rest rfl s hs
    have hbefore := (futile_trace d fun o ho => hdown o (List.mem_append_left _ ho)).spared
    rw [run_trace] at hbefore
    exact lookup_of_get? (hbefore.snapshots _ s hs) backend
  · rintro before backend namespaceId group clusters rest rfl
    have h : Backend.IsDown backend :=
      hdown _ (List.mem_append_right _ List.mem_cons_self)
    exact catalog_of_isDown _ h namespaceId group clusters
  · intro steps hsteps
    exact ⟨hsteps.spared, hsteps.spared.following, hsteps.addsPlaceholders hheld⟩

/-- A backend that answers with texts of no use, and fails when it is asked for a catalog. -/
def brokenBackend : Backend
  | .single .. => { reply := some "[\"a\"", conditions := fun _ => { clock := 9 } }
  | .batch .. => { reply := some "[\"\",\"[1]\"]", conditions := fun _ => { clock := 9 } }
  | .catalog .. => { reply := none, conditions := fun _ => { clock := 9 } }

theorem isDown_brokenBackend : Backend.IsDown brokenBackend := by
  intro query
  cases query with
  | single name clusters port healthyOnly =>
      refine ⟨fun a ha => (List.not_mem_nil ha).elim, fun text htext => Or.inr ?_⟩
      obtain rfl := Option.some.inj htext
      change Service.parse? "[\"a\"" = none
      decide +kernel
  | batch names clusters port healthyOnly findBack =>
      refine ⟨fun a ha => (List.not_mem_nil ha).elim, fun text htext => Or.inr ?_⟩
      obtain rfl := Option.some.inj htext
      change ∀ documents ∈ parseBatch? "[\"\",\"[1]\"]", ∀ t ∈ documents, Service.parse? t = none
      decide +kernel
  | catalog namespaceId group clusters =>
      refine ⟨fun a ha => (List.not_mem_nil ha).elim, fun text htext => ?_⟩
      cases htext

/-- All that can be asked of a backend that is down, for a service that is known and for another
one. -/
def sufferedHistory : List Operation :=
  [.lookup brokenBackend "b" "", .refresh brokenBackend "a" "",
    .refreshAll brokenBackend ["a", "b"] KeyMap.empty false, .lookup brokenBackend "a" " ,",
    .catalog brokenBackend "n" "g" ""]

/-- A document of the service that is known. -/
def knownArrival : Arrival :=
  ⟨"[\"a\",\"\",\"\",1000,[[\"\",\"10.0.0.1\",80]]]", { clock := 1 }⟩

theorem sufferedHistory_spared :
    let d := (start {} false none).run [.take knownArrival]
    (∀ operation ∈ sufferedHistory, operation.MeetsOutage) ∧ d.Spared (d.after sufferedHistory) ∧
      (d.after sufferedHistory).store.lastRefresh ⟨"a", ""⟩ = 1 ∧
      (d.after sufferedHistory).store.get? ⟨"b", ""⟩ = some (Service.placeholder "b" "") := by
  intro d
  have hdown : ∀ operation ∈ sufferedHistory, operation.MeetsOutage := by
    intro operation ho
    simp only [sufferedHistory, List.mem_cons, List.not_mem_nil, or_false] at ho
    rcases ho with rfl | rfl | rfl | rfl | rfl <;> exact isDown_brokenBackend
  obtain ⟨hspared, _⟩ := outage_costs_nothing {} false none [.take knownArrival] d rfl
    sufferedHistory hdown
  exact ⟨hdown, hspared, by decide +kernel, by decide +kernel⟩

end Directory

end ServiceDirectory
