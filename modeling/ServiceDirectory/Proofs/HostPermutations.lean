import ServiceDirectory.Proofs.Alike
import ServiceDirectory.Proofs.Coherence
import ServiceDirectory.Proofs.Documents
import ServiceDirectory.Proofs.Routes

/-!
# The order of hosts does not matter

Two runs are compared in which whatever is read differs in the order of hosts at
most. A document is judged by its hosts as a whole, so it gets the same verdict in
both, and what it leaves in the store and on disk differs in the order of hosts at
most again. This relation is kept by each operation, whatever it asks the backend and
wherever it loads from.
-/

namespace ServiceDirectory

/-! ## What comes in -/

/-- Texts that are documents of alike snapshots, or no service documents. -/
def Service.AlikeTexts (t u : String) : Prop :=
  Option.Rel Service.Alike (Service.parse? t) (Service.parse? u)

/-- Documents of alike snapshots that meet the same. -/
structure Arrival.Alike (a b : Arrival) : Prop where
  text : Service.AlikeTexts a.text b.text
  conditions : a.conditions = b.conditions

/-- Documents that are alike one by one, once those that are no services are left out. -/
inductive AlikeArrivals : List Arrival → List Arrival → Prop
  | nil : AlikeArrivals [] []
  | cons {a b : Arrival} {rest rest' : List Arrival} (hab : a.Alike b)
      (h : AlikeArrivals rest rest') : AlikeArrivals (a :: rest) (b :: rest')
  | skip_left {a : Arrival} {rest rest' : List Arrival} (ha : Service.parse? a.text = none)
      (h : AlikeArrivals rest rest') : AlikeArrivals (a :: rest) rest'
  | skip_right {b : Arrival} {rest rest' : List Arrival} (hb : Service.parse? b.text = none)
      (h : AlikeArrivals rest rest') : AlikeArrivals rest (b :: rest')

/-- Replies that a query makes the same of but for the order of hosts, or has no use for. -/
def Query.AlikeReplies : Query → Option String → Option String → Prop
  | .single .., reply, reply' =>
    Option.Rel Service.Alike (reply.bind Service.parse?) (reply'.bind Service.parse?)
  | .batch .., reply, reply' =>
    Option.Rel (List.Forall₂ Service.AlikeTexts) (reply.bind parseBatch?) (reply'.bind parseBatch?)
  | .catalog .., reply, reply' =>
    Option.Rel (List.Forall₂ Service.Alike) (reply.bind parseCatalog?) (reply'.bind parseCatalog?)

/-- Answers to a query with alike documents and replies; a blank reply is none. -/
structure Answer.Alike (query : Query) (answer other : Answer) : Prop where
  meanwhile : List.Forall₂ Arrival.Alike answer.meanwhile other.meanwhile
  reply : query.AlikeReplies (answer.reply.filter (!Text.allBlank ·))
    (other.reply.filter (!Text.allBlank ·))
  conditions : answer.conditions = other.conditions

/-- Backends that answer alike to every query. -/
def Backend.Alike (backend other : Backend) : Prop :=
  ∀ query, (backend query).Alike query (other query)

/-- All documents of alike snapshots are alike. -/
theorem Service.Alike.texts {s t : Service} (h : s.Alike t) (hname : s.name ≠ "")
    {text text' : String} (htext : s.Documents text) (htext' : t.Documents text') :
    Service.AlikeTexts text text' := by
  have hname' : t.name ≠ "" := h.name_eq ▸ hname
  rw [Service.AlikeTexts, htext.parse? hname, htext'.parse? hname']
  exact h.reread?

/-- A single reply that is blank is no service document anyway. -/
theorem Query.alikeReplies_single {t u : String} (h : Service.AlikeTexts t u)
    (name clusters : String) (port : UInt16) (healthyOnly : Bool) :
    (Query.single name clusters port healthyOnly).AlikeReplies
      ((some t).filter (!Text.allBlank ·)) ((some u).filter (!Text.allBlank ·)) := by
  have hblank : ∀ text, ((some text).filter (!Text.allBlank ·)).bind Service.parse? =
      Service.parse? text := by
    intro text
    cases hall : Text.allBlank text with
    | true => simp [Option.filter, hall, Service.parse?_of_allBlank hall]
    | false => simp [Option.filter, hall]
  rw [AlikeReplies, hblank, hblank]
  exact h

namespace AlikeArrivals

theorem append {first first' rest rest' : List Arrival}
    (hfirst : List.Forall₂ Arrival.Alike first first') (h : AlikeArrivals rest rest') :
    AlikeArrivals (first ++ rest) (first' ++ rest') := by
  induction hfirst with
  | nil => exact h
  | cons hab _ ih => exact .cons hab ih

theorem of_forall₂ {arrivals others : List Arrival}
    (h : List.Forall₂ Arrival.Alike arrivals others) : AlikeArrivals arrivals others := by
  have happend := append h .nil
  rwa [List.append_nil, List.append_nil] at happend

/-- What is no service document may be left out of both. -/
theorem filter {arrivals others : List Arrival} (h : List.Forall₂ Arrival.Alike arrivals others)
    {keep : Arrival → Bool} (hskip : ∀ a, keep a = false → Service.parse? a.text = none) :
    AlikeArrivals (arrivals.filter keep) (others.filter keep) := by
  induction h with
  | nil => exact .nil
  | @cons a b rest rest' hab _ ih =>
      -- One of two alike texts may be blank and the other not: then both are no services.
      have hnone := eq_none_iff_of_rel hab.text
      rw [List.filter_cons, List.filter_cons]
      cases ha : keep a with
      | true =>
          cases hb : keep b with
          | true => exact .cons hab ih
          | false => exact .skip_left (hnone.mpr (hskip b hb)) ih
      | false =>
          cases hb : keep b with
          | true => exact .skip_right (hnone.mp (hskip a ha)) ih
          | false => exact ih

end AlikeArrivals

namespace Answer.Alike

variable {answer other : Answer}

theorem single {name clusters : String} {port : UInt16} {healthyOnly : Bool}
    (h : answer.Alike (.single name clusters port healthyOnly) other) :
    AlikeArrivals answer.single other.single := by
  have hreply : Option.Rel Service.Alike _ _ := h.reply
  rw [Answer.single, Answer.single]
  generalize answer.reply.filter (!Text.allBlank ·) = reply at hreply
  generalize other.reply.filter (!Text.allBlank ·) = reply' at hreply
  have hnone := eq_none_iff_of_rel hreply
  cases reply with
  | none =>
      cases reply' with
      | none => exact .nil
      | some u => exact .skip_right (hnone.mp rfl) .nil
  | some t =>
      cases reply' with
      | none => exact .skip_left (hnone.mpr rfl) .nil
      | some u => exact .cons ⟨hreply, congrFun h.conditions 0⟩ .nil

/-- Texts of a batched reply that are alike one by one meet the same. -/
theorem arrivals {documents others : List String}
    (h : List.Forall₂ Service.AlikeTexts documents others) (conditions : Nat → Conditions) :
    List.Forall₂ Arrival.Alike
      (documents.mapIdx fun i text => (⟨text, conditions i⟩ : Arrival))
      (others.mapIdx fun i text => (⟨text, conditions i⟩ : Arrival)) := by
  induction h generalizing conditions with
  | nil => exact .nil
  | cons htu _ ih =>
      rw [List.mapIdx_cons, List.mapIdx_cons]
      exact .cons ⟨htu, rfl⟩ (ih fun i => conditions (i + 1))

theorem batch {names : String} {clusters : KeyMap String String} {port : UInt16}
    {healthyOnly findBack : Bool}
    (h : answer.Alike (.batch names clusters port healthyOnly findBack) other) :
    AlikeArrivals answer.batch other.batch := by
  have hreply : Option.Rel (List.Forall₂ Service.AlikeTexts) _ _ := h.reply
  rw [Answer.batch, Answer.batch]
  generalize (answer.reply.filter (!Text.allBlank ·)).bind parseBatch? = documents at hreply
  generalize (other.reply.filter (!Text.allBlank ·)).bind parseBatch? = documents' at hreply
  cases hreply with
  | none => exact .nil
  | some hdocuments =>
      have harrivals := arrivals hdocuments answer.conditions
      unfold Directory.batchArrivals
      rw [← h.conditions]
      apply AlikeArrivals.filter harrivals
      intro a ha
      exact Service.parse?_of_isEmpty (by simpa using ha)

end Answer.Alike

/-! ## What is done -/

/-- A document that was no service: nothing else comes of it. -/
def Event.isRejection : Event → Bool
  | .judged _ _ .rejected => true
  | _ => false

/-- The same event with alike documents or snapshots, in the sight of alike stores. -/
inductive Event.Alike : Event → Event → Prop
  | judged {t u : String} (h : Service.AlikeTexts t u) (clock : Millis) (verdict : Verdict) :
      Alike (.judged t clock verdict) (.judged u clock verdict)
  | asked (query : Query) : Alike (.asked query) (.asked query)
  | wrote {s t : Service} (hs : s.Alike t) (succeeded : Bool) {seen seen' : Store}
      (hseen : seen.Alike seen') : Alike (.wrote s succeeded seen) (.wrote t succeeded seen')
  | published {s t : Service} (hs : s.Alike t) (sinkFailed : Bool) {seen seen' : Store}
      (hseen : seen.Alike seen') :
      Alike (.published s sinkFailed seen) (.published t sinkFailed seen')

theorem Event.Alike.isRejection_eq {event other : Event} (h : event.Alike other) :
    event.isRejection = other.isRejection := by
  cases h with
  | judged ht clock verdict => cases verdict <;> rfl
  | asked query => rfl
  | wrote hs succeeded hseen => rfl
  | published hs sinkFailed hseen => rfl

/-- Alike events leave alike archives. -/
theorem Archive.Alike.following {archive other : Archive} (h : archive.Alike other)
    {events others : List Event} (hevents : List.Forall₂ Event.Alike events others) :
    (archive.following events).Alike (other.following others) := by
  induction hevents generalizing archive other with
  | nil => exact h
  | @cons event event' rest rest' hevent _ ih =>
      cases hevent with
      | judged ht clock verdict => exact ih h
      | asked query => exact ih h
      | published hs sinkFailed hseen => exact ih h
      | wrote hs succeeded hseen =>
          cases succeeded with
          | true => exact ih (h.write hs)
          | false => exact ih h

namespace Directory

/-- The events without those of documents that were no services. -/
def heeded (d : Directory) : List Event := d.events.filter (!·.isRejection)

/-- The same setup, alike stores, and the same things done with alike snapshots. -/
structure Alike (d e : Directory) : Prop where
  policy : d.policy = e.policy
  store : d.store.Alike e.store
  heeded : List.Forall₂ Event.Alike d.heeded e.heeded

/-- A rejection leaves nothing on disk. -/
theorem following_heeded (archive : Archive) (d : Directory) :
    archive.following d.heeded = archive.following d.events :=
  archive.following_filter fun _ _ _ => rfl

theorem heeded_judged_rejected (d : Directory) (a : Arrival) :
    (d.judged a .rejected).heeded = d.heeded := by
  rw [heeded, judged_events, List.filter_append]
  exact List.append_nil _

namespace Alike

variable {d e : Directory}

theorem following (h : d.Alike e) {archive other : Archive} (harchive : archive.Alike other) :
    (archive.following d.events).Alike (other.following e.events) := by
  rw [← following_heeded, ← following_heeded]
  exact harchive.following h.heeded

theorem record (h : d.Alike e) {event other : Event} (hevent : event.Alike other) :
    (d.record event).Alike (e.record other) := by
  refine ⟨h.policy, h.store, ?_⟩
  rw [Directory.heeded, Directory.heeded, record_events, record_events, List.filter_append,
    List.filter_append, List.filter_singleton, List.filter_singleton, hevent.isRejection_eq]
  apply List.rel_append h.heeded
  cases other.isRejection with
  | true => exact .nil
  | false => exact .cons hevent .nil

theorem commit (h : d.Alike e) {s t : Service} (hs : s.Alike t) (clock : Millis) :
    (d.commit s clock).Alike (e.commit t clock) :=
  ⟨h.policy, h.store.commit hs clock, h.heeded⟩

theorem announce (h : d.Alike e) {s t : Service} (hs : s.Alike t) (c : Conditions) :
    (d.announce s c).Alike (e.announce t c) :=
  (h.record (.wrote hs _ h.store)).record (.published hs _ h.store)

theorem putPlaceholder (h : d.Alike e) (name clusters : String) :
    (d.putPlaceholder name clusters).Alike (e.putPlaceholder name clusters) :=
  ⟨h.policy, h.store.set _ (.refl _), h.heeded⟩

/-! ### Documents -/

/-- Of alike documents it is found the same whether they have hosts, and whether they have the
hosts of what the stores hold. -/
theorem judge (h : d.Alike e) {s t : Service} (hs : s.Alike t) : d.judge s = e.judge t := by
  have hget := h.store.get? s.key
  rw [Directory.judge, Directory.judge, hs.key_eq, h.policy]
  generalize d.store.get? s.key = held at hget
  generalize e.store.get? s.key = held' at hget
  cases hget with
  | none => rfl
  | @some old old' hold =>
      have hempty : s.hosts.isEmpty = t.hosts.isEmpty := hs.hosts.isEmpty_eq
      have hsame : Instance.sameHosts old.hosts s.hosts =
          Instance.sameHosts old'.hosts t.hosts := by
        rw [Bool.eq_iff_iff, Instance.sameHosts_iff_perm, Instance.sameHosts_iff_perm]
        exact ⟨fun hperm => (hold.hosts.symm.trans hperm).trans hs.hosts,
          fun hperm => (hold.hosts.trans hperm).trans hs.hosts.symm⟩
      simp only [hempty, hsame]

theorem receive (h : d.Alike e) {a b : Arrival} (hab : a.Alike b) :
    (d.receive a).1 = (e.receive b).1 ∧ (d.receive a).2.Alike (e.receive b).2 := by
  have htext : Option.Rel Service.Alike _ _ := hab.text
  have hjudged : ∀ verdict, (d.record (.judged a.text a.conditions.clock verdict)).Alike
      (e.record (.judged b.text a.conditions.clock verdict)) := fun verdict =>
    h.record (.judged hab.text _ verdict)
  rw [Directory.receive, Directory.receive, ← hab.conditions]
  generalize Service.parse? a.text = document at htext
  generalize Service.parse? b.text = document' at htext
  cases htext with
  | none => exact ⟨rfl, hjudged _⟩
  | @some s t hs =>
      simp only [h.judge hs]
      cases e.judge t with
      | rejected => exact ⟨rfl, hjudged _⟩
      | ignoredEmpty => exact ⟨rfl, hjudged _⟩
      | unchanged => exact ⟨rfl, (hjudged _).commit hs _⟩
      | changed => exact ⟨rfl, ((hjudged _).commit hs _).announce hs _⟩

/-- What is no service document may be left out. -/
theorem skip_left (h : d.Alike e) {a : Arrival} (ha : Service.parse? a.text = none) :
    (d.receive a).2.Alike e := by
  rw [receive_of_parse?_eq_none d ha]
  exact ⟨h.policy, h.store, (heeded_judged_rejected d a).symm ▸ h.heeded⟩

theorem skip_right (h : d.Alike e) {b : Arrival} (hb : Service.parse? b.text = none) :
    d.Alike (e.receive b).2 := by
  rw [receive_of_parse?_eq_none e hb]
  exact ⟨h.policy, h.store, (heeded_judged_rejected e b).symm ▸ h.heeded⟩

theorem receiveAll (h : d.Alike e) {arrivals others : List Arrival}
    (harrivals : AlikeArrivals arrivals others) :
    (d.receiveAll arrivals).Alike (e.receiveAll others) := by
  induction harrivals generalizing d e with
  | nil => exact h
  | cons hab _ ih => exact ih (h.receive hab).2
  | skip_left ha _ ih => exact ih (h.skip_left ha)
  | skip_right hb _ ih => exact ih (h.skip_right hb)

/-! ### Queries -/

variable {backend other : Backend}

theorem refresh (h : d.Alike e) (hbackend : backend.Alike other) (name clusters : String) :
    (d.refresh backend name clusters).Alike (e.refresh other name clusters) := by
  have hquery : d.singleQuery name clusters = e.singleQuery name clusters := by
    rw [singleQuery, singleQuery, h.policy]
  have hanswer := hbackend (e.singleQuery name clusters)
  rw [Directory.refresh, Directory.refresh, hquery, settleSingle_eq, settleSingle_eq]
  exact (h.record (.asked _)).receiveAll (.append hanswer.meanwhile hanswer.single)

theorem refreshAll (h : d.Alike e) (hbackend : backend.Alike other) (names : List String)
    (clusters : KeyMap String String) (findBack : Bool) :
    (d.refreshAll backend names clusters findBack).Alike
      (e.refreshAll other names clusters findBack) := by
  have hquery : d.batchQuery names clusters findBack = e.batchQuery names clusters findBack := by
    rw [batchQuery, batchQuery, h.policy]
  have hanswer := hbackend (e.batchQuery names clusters findBack)
  rw [Directory.refreshAll, Directory.refreshAll, hquery, settleBatch_eq, settleBatch_eq]
  exact (h.record (.asked _)).receiveAll (.append hanswer.meanwhile hanswer.batch)

theorem lookup (h : d.Alike e) (hbackend : backend.Alike other) (name clusters : String) :
    (d.lookup backend name clusters).1.Alike (e.lookup other name clusters).1 ∧
      (d.lookup backend name clusters).2.Alike (e.lookup other name clusters).2 := by
  have hget := h.store.get? (ServiceKey.of name clusters)
  have hrefreshed := (h.putPlaceholder name clusters).refresh hbackend name clusters
  have hget' := hrefreshed.store.get? (ServiceKey.of name clusters)
  rw [Directory.lookup, Directory.lookup]
  generalize d.store.get? (ServiceKey.of name clusters) = held at hget
  generalize e.store.get? (ServiceKey.of name clusters) = held' at hget
  cases hget with
  | some hs => exact ⟨hs, h⟩
  | none =>
      exact ⟨getD_of_rel hget' (.refl _), hrefreshed⟩

theorem collect (h : d.Alike e) (clusters : KeyMap String String) (findBack : Bool)
    (names : List String) :
    (d.collect clusters findBack names).1 = (e.collect clusters findBack names).1 ∧
      (d.collect clusters findBack names).2.Alike (e.collect clusters findBack names).2 := by
  induction names generalizing d e with
  | nil => exact ⟨rfl, h⟩
  | cons name rest ih =>
      have hcontains := h.store.contains_eq (ServiceKey.of name (clustersFor clusters name))
      have hplaced := h.putPlaceholder name (clustersFor clusters name)
      rw [Directory.collect, Directory.collect]
      simp only [hcontains]
      split
      · split
        · exact ⟨rfl, hplaced⟩
        · exact ⟨congrArg (_ :: ·) (ih hplaced).1, (ih hplaced).2⟩
      · exact ih h

theorem lookupAll (h : d.Alike e) (hbackend : backend.Alike other) (names : List String)
    (clusters : KeyMap String String) (findBack : Bool) :
    (d.lookupAll backend names clusters findBack).1 =
        (e.lookupAll other names clusters findBack).1 ∧
      (d.lookupAll backend names clusters findBack).2.Alike
        (e.lookupAll other names clusters findBack).2 := by
  obtain ⟨hfound, hcollected⟩ := h.collect clusters findBack names
  have hrefreshed := hcollected.refreshAll hbackend names clusters findBack
  obtain ⟨hfound', hcollected'⟩ := hrefreshed.collect clusters findBack names
  rw [Directory.lookupAll, Directory.lookupAll]
  simp only [hfound]
  split
  · exact ⟨congrArg (_ :: ·) hfound', hcollected'⟩
  · exact ⟨rfl, hcollected⟩

theorem catalog (h : d.Alike e) (hbackend : backend.Alike other)
    (namespaceId group clusters : String) :
    List.Forall₂ Service.Alike (d.catalog backend namespaceId group clusters).1
        (e.catalog other namespaceId group clusters).1 ∧
      (d.catalog backend namespaceId group clusters).2.Alike
        (e.catalog other namespaceId group clusters).2 := by
  have hanswer := hbackend (.catalog namespaceId group clusters)
  have hreply : Option.Rel (List.Forall₂ Service.Alike) _ _ := hanswer.reply
  exact ⟨getD_of_rel hreply .nil,
    (h.record (.asked _)).receiveAll (.of_forall₂ hanswer.meanwhile)⟩

/-! ### Loads and dumps -/

theorem load (h : d.Alike e) {map map' : KeyMap ServiceKey Service}
    (hmap : map.Matches Service.Alike map') : (d.load (some map)).Alike (e.load (some map')) := by
  rw [Directory.load, Directory.load, foldl_set, foldl_set]
  exact ⟨h.policy, ⟨h.store.snapshots.overlay hmap, h.store.stamps⟩, h.heeded⟩

theorem rendered (h : d.Alike e) : d.rendered.Matches Service.Alike e.rendered := by
  apply KeyMap.matches_ofList
  rw [KeyMap.EntriesMatch, List.forall₂_map_left_iff, List.forall₂_map_right_iff]
  apply List.Forall₂.imp _ h.store.snapshots
  rintro a b ⟨hkey, hs⟩
  exact ⟨congrArg ServiceKey.render hkey, hs⟩

end Alike

end Directory

/-! ## Operations -/

/-- The same operation, with alike documents and backends. What is loaded is another matter: it
is there in both runs or in none. -/
inductive Operation.Alike : Operation → Operation → Prop
  | receive {a b : Arrival} (h : a.Alike b) : Alike (.receive a) (.receive b)
  | ingest {t u : String} (h : Service.AlikeTexts t u) (c : Conditions) :
      Alike (.ingest (.service t) c) (.ingest (.service u) c)
  | dump (c : Conditions) : Alike (.ingest .dump c) (.ingest .dump c)
  | refresh {backend other : Backend} (h : backend.Alike other) (name clusters : String) :
      Alike (.refresh backend name clusters) (.refresh other name clusters)
  | refreshAll {backend other : Backend} (h : backend.Alike other) (names : List String)
      (clusters : KeyMap String String) (findBack : Bool) :
      Alike (.refreshAll backend names clusters findBack)
        (.refreshAll other names clusters findBack)
  | lookup {backend other : Backend} (h : backend.Alike other) (name clusters : String) :
      Alike (.lookup backend name clusters) (.lookup other name clusters)
  | lookupAll {backend other : Backend} (h : backend.Alike other) (names : List String)
      (clusters : KeyMap String String) (findBack : Bool) :
      Alike (.lookupAll backend names clusters findBack)
        (.lookupAll other names clusters findBack)
  | catalog {backend other : Backend} (h : backend.Alike other)
      (namespaceId group clusters : String) :
      Alike (.catalog backend namespaceId group clusters)
        (.catalog other namespaceId group clusters)
  | load {readings readings' : Option (KeyMap ServiceKey Service)}
      (h : readings.isSome = readings'.isSome) : Alike (.load readings) (.load readings')

/-- The same outcome, with alike snapshots; dumps are those of maps with alike snapshots. -/
inductive Outcome.Alike : Outcome → Outcome → Prop
  | nothing : Alike .nothing .nothing
  | verdict (verdict : Verdict) : Alike (.verdict verdict) (.verdict verdict)
  | service {s t : Service} (h : s.Alike t) : Alike (.service s) (.service t)
  | services {found found' : List Service} (h : List.Forall₂ Service.Alike found found') :
      Alike (.services found) (.services found')
  | dump {d e : Directory} (h : d.rendered.Matches Service.Alike e.rendered) :
      Alike (.dump d.dump) (.dump e.dump)

namespace Directory

/-- What the operations of a history give back, one after another. -/
def outcomes (d : Directory) : List Operation → List Outcome
  | [] => []
  | operation :: rest => (d.perform operation).1 :: (d.perform operation).2.outcomes rest

variable {d e : Directory} {archive other : Archive}

theorem Alike.outcome (h : d.Alike e) {a b : Arrival} (hab : a.Alike b) :
    (Outcome.verdict (d.receive a).1).Alike (.verdict (e.receive b).1) ∧
      (d.receive a).2.Alike (e.receive b).2 := by
  obtain ⟨hverdict, hreceived⟩ := h.receive hab
  rw [hverdict]
  exact ⟨.verdict _, hreceived⟩

/-- One operation keeps two directories alike, when each of them loads from the disk that it
wrote to. -/
theorem Alike.perform (h : d.Alike e) (harchive : archive.Alike other)
    {operation operation' : Operation} (hoperation : operation.Alike operation')
    (hloads : d.LoadsFrom archive (d.stepsOf operation))
    (hloads' : e.LoadsFrom other (e.stepsOf operation')) :
    (d.perform operation).1.Alike (e.perform operation').1 ∧
      (d.perform operation).2.Alike (e.perform operation').2 := by
  cases hoperation with
  | receive hab => exact h.outcome hab
  | @ingest t u htu c =>
      have hab : Arrival.Alike ⟨t, c⟩ ⟨u, c⟩ := ⟨htu, rfl⟩
      exact h.outcome hab
  | dump c => exact ⟨.dump h.rendered, h⟩
  | refresh hbackend name clusters => exact ⟨.nothing, h.refresh hbackend name clusters⟩
  | refreshAll hbackend names clusters findBack =>
      exact ⟨.nothing, h.refreshAll hbackend names clusters findBack⟩
  | lookup hbackend name clusters =>
      obtain ⟨hservice, hlooked⟩ := h.lookup hbackend name clusters
      exact ⟨.service hservice, hlooked⟩
  | @lookupAll backend backend' hbackend names clusters findBack =>
      obtain ⟨hfound, hlooked⟩ := h.lookupAll hbackend names clusters findBack
      have hservices : List.Forall₂ Service.Alike
          (d.lookupAll backend names clusters findBack).1
          (e.lookupAll backend' names clusters findBack).1 := by
        rw [hfound]
        exact List.forall₂_same.mpr fun s _ => .refl s
      exact ⟨.services hservices, hlooked⟩
  | catalog hbackend namespaceId group clusters =>
      obtain ⟨hfound, hasked⟩ := h.catalog hbackend namespaceId group clusters
      exact ⟨.services hfound, hasked⟩
  | @load readings readings' hreadings =>
      -- Each loads from its own disk, and after alike events the disks are alike still.
      refine ⟨.nothing, ?_⟩
      have hread := (h.following harchive).read
      cases readings with
      | none =>
          cases readings' with
          | none => exact h
          | some map' => cases hreadings
      | some map =>
          cases readings' with
          | none => cases hreadings
          | some map' =>
              rw [hloads.1 map rfl, hloads'.1 map' rfl] at hread
              exact h.load (Option.rel_some_some.mp hread)

theorem Alike.after (h : d.Alike e) (harchive : archive.Alike other)
    {history history' : List Operation} (hhistory : List.Forall₂ Operation.Alike history history')
    (hloads : d.LoadsFrom archive (d.trace history))
    (hloads' : e.LoadsFrom other (e.trace history')) :
    List.Forall₂ Outcome.Alike (d.outcomes history) (e.outcomes history') ∧
      (d.after history).Alike (e.after history') := by
  induction hhistory generalizing d e with
  | nil => exact ⟨.nil, h⟩
  | cons hoperation _ ih =>
      rw [trace, loadsFrom_append, run_stepsOf] at hloads hloads'
      obtain ⟨houtcome, hperformed⟩ := h.perform harchive hoperation hloads.1 hloads'.1
      obtain ⟨houtcomes, hafter⟩ := ih hperformed hloads.2 hloads'.2
      exact ⟨.cons houtcome houtcomes, hafter⟩

/-- The order of hosts does not matter. If two runs start from directories and disks that are alike
but for it, get documents, replies and catalogs that are alike but for it, and load what is on
their disks, then all outcomes are alike but for it. In the end the same was asked in both, the
same stamps are there, and the same was written and published for the same services in the same
order; and stores and disks are alike but for the order of hosts. -/
theorem host_order_irrelevant (d e : Directory) (h : d.Alike e) (archive other : Archive)
    (harchive : archive.Alike other) (history history' : List Operation)
    (hhistory : List.Forall₂ Operation.Alike history history')
    (hloads : d.LoadsFrom archive (d.trace history))
    (hloads' : e.LoadsFrom other (e.trace history')) :
    List.Forall₂ Outcome.Alike (d.outcomes history) (e.outcomes history') ∧
      (d.after history).Alike (e.after history') ∧
      (archive.following (d.after history).events).Alike
        (other.following (e.after history').events) := by
  obtain ⟨houtcomes, hafter⟩ := h.after harchive hhistory hloads hloads'
  exact ⟨houtcomes, hafter, hafter.following harchive⟩

/-- Two hosts, one of them twice. -/
def doubled : Service :=
  { Service.placeholder "a" "" with
    hosts := [{ ip := "10.0.0.1", port := 80 }, { ip := "10.0.0.2", port := 80 },
      { ip := "10.0.0.1", port := 80 }] }

/-- The same hosts, the other way round. -/
def turned : Service :=
  { doubled with
    hosts := [{ ip := "10.0.0.2", port := 80 }, { ip := "10.0.0.1", port := 80 },
      { ip := "10.0.0.1", port := 80 }] }

/-- A backend that knows one document, which arrives by another way too while a query is under
way; all but single queries fail. -/
def answering (text : String) : Backend := fun query =>
  { meanwhile := [⟨text, { clock := 1 }⟩]
    reply := match query with
      | .single .. => some text
      | _ => none
    conditions := fun _ => { clock := 2, sinkFails := true } }

theorem alike_answering {t u : String} (h : Service.AlikeTexts t u) :
    Backend.Alike (answering t) (answering u) := by
  intro query
  refine ⟨.cons ⟨h, rfl⟩ .nil, ?_, rfl⟩
  cases query with
  | single name clusters port healthyOnly => exact Query.alikeReplies_single h _ _ _ _
  | batch names clusters port healthyOnly findBack => exact .none
  | catalog namespaceId group clusters => exact .none

/-- A lookup, a document, and then a load of what is on disk by then. -/
def lookedUp (archive : Archive) (text : String) : List Operation :=
  .lookup (answering text) "b" "" ::
    reloading archive (lookup {} (answering text) "b" "").2 ⟨text, { clock := 3 }⟩

theorem loadsFrom_lookedUp (archive : Archive) (text : String) :
    LoadsFrom archive {} (trace {} (lookedUp archive text)) := by
  rw [lookedUp, trace, loadsFrom_append, run_stepsOf]
  exact ⟨⟨trivial, trivial, loadsFrom_take archive _ _⟩, loadsFrom_reloading archive _ _⟩

theorem alike_lookedUp {archive other : Archive} (harchive : archive.Alike other) {t u : String}
    (h : Service.AlikeTexts t u) :
    List.Forall₂ Operation.Alike (lookedUp archive t) (lookedUp other u) := by
  have hstart : Alike {} {} := ⟨rfl, ⟨.nil, rfl⟩, .nil⟩
  have hbackend := alike_answering h
  have hlookup := (hstart.lookup hbackend "b" "").2
  have harrival : Arrival.Alike ⟨t, { clock := 3 }⟩ ⟨u, { clock := 3 }⟩ := ⟨h, rfl⟩
  have hread := ((hlookup.receive harrival).2.following harchive).read
  exact .cons (.lookup hbackend _ _)
    (.cons (.receive harrival) (.cons (.load (isSome_of_rel hread)) .nil))

theorem doubled_host_order_irrelevant :
    doubled.Alike turned ∧
      (after {} (lookedUp (.filled [doubled]) doubled.print)).Alike
        (after {} (lookedUp (.filled [turned]) turned.print)) := by
  have halike : doubled.Alike turned := ⟨by decide, rfl⟩
  have htexts : Service.AlikeTexts doubled.print turned.print :=
    halike.texts (by decide) doubled.documents_print turned.documents_print
  have hdisk : (Archive.filled [doubled]).Alike (.filled [turned]) := .filled (.cons halike .nil)
  have hstart : Alike {} {} := ⟨rfl, ⟨.nil, rfl⟩, .nil⟩
  have hirrelevant := host_order_irrelevant {} {} hstart _ _ hdisk _ _
    (alike_lookedUp hdisk htexts) (loadsFrom_lookedUp _ _) (loadsFrom_lookedUp _ _)
  exact ⟨halike, hirrelevant.2.1⟩

end Directory

end ServiceDirectory
