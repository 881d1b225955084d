import ServiceDirectory.Proofs.PushLine
import ServiceDirectory.Proofs.Replies
import ServiceDirectory.Proofs.Runs

/-!
# Routes of documents

It makes no difference by which way documents come: received one by one, as the
replies of single queries, as one batched reply or as pushes. The ways differ in
what they ask and in which blank documents they sort out themselves, and a blank
document that is taken in is no service and leaves everything as it is.
-/

namespace ServiceDirectory

/-- The answer of a single query with a document for its reply. -/
def Answer.ofArrival (a : Arrival) : Answer :=
  { reply := some a.text, conditions := fun _ => a.conditions }

/-- The answer of a batched query with documents for its reply. -/
def Answer.ofArrivals (arrivals : List Arrival) : Answer where
  reply := some (Json.array (arrivals.map fun a => Json.ofString a.text)).print
  conditions i := (arrivals.map (·.conditions)).getD i default

/-- A reply that is blank is left out. -/
theorem Answer.single_ofArrival (a : Arrival) :
    (Answer.ofArrival a).single = [a].filter (!Text.allBlank ·.text) := by
  cases h : Text.allBlank a.text <;> simp [Answer.single, Answer.ofArrival, Option.filter, h]

/-- An array is not blank: it begins with its bracket. -/
theorem allBlank_print_array (items : List Json) :
    Text.allBlank (Json.array items).print = false := by
  rw [Text.allBlank, Json.print, String.toList_ofList]
  rfl

/-- Texts of a batched reply that are empty are left out. -/
theorem Answer.batch_ofArrivals (arrivals : List Arrival) :
    (Answer.ofArrivals arrivals).batch = arrivals.filter (!·.text.isEmpty) := by
  have hreply : ((Answer.ofArrivals arrivals).reply.filter (!Text.allBlank ·)).bind parseBatch? =
      some (arrivals.map (·.text)) := by
    have htexts := parseBatch?_eq_some_iff.mpr
      (spelled_print_array_ofString (arrivals.map (·.text)))
    rw [List.map_map] at htexts
    rw [Answer.ofArrivals, Option.filter_some, allBlank_print_array]
    exact htexts
  have harrivals : (arrivals.map (·.text)).mapIdx (fun i text =>
      (⟨text, (Answer.ofArrivals arrivals).conditions i⟩ : Arrival)) = arrivals := by
    apply List.ext_getElem
    · simp
    · intro i _ hi
      simp [Answer.ofArrivals, hi]
  simp only [Answer.batch, hreply, Directory.batchArrivals, harrivals]

theorem Service.parse?_of_allBlank {text : String} (h : Text.allBlank text = true) :
    Service.parse? text = none := by
  rw [Service.parse?, if_pos h]

theorem Service.parse?_of_isEmpty {text : String} (h : text.isEmpty = true) :
    Service.parse? text = none := by
  rw [String.isEmpty_iff.mp h]
  exact parse?_of_allBlank rfl

namespace Directory

/-- The writes to disk and the calls of the sink, in their order. -/
def effects (d : Directory) : List Event := d.events.filter (·.announced?.isSome)

/-- The same store, the same writes and calls of the sink, and the same setup. -/
structure SameEffects (d e : Directory) : Prop where
  policy : d.policy = e.policy
  store : d.store = e.store
  effects : d.effects = e.effects

namespace SameEffects

variable {d e f : Directory}

theorem refl (d : Directory) : d.SameEffects d := ⟨rfl, rfl, rfl⟩

theorem symm (h : d.SameEffects e) : e.SameEffects d :=
  ⟨h.policy.symm, h.store.symm, h.effects.symm⟩

theorem trans (h : d.SameEffects e) (h' : e.SameEffects f) : d.SameEffects f :=
  ⟨h.policy.trans h'.policy, h.store.trans h'.store, h.effects.trans h'.effects⟩

theorem record (h : d.SameEffects e) (event : Event) :
    (d.record event).SameEffects (e.record event) := by
  refine ⟨h.policy, h.store, ?_⟩
  have heffects : d.events.filter _ = e.events.filter _ := h.effects
  simp only [Directory.effects, record_events, List.filter_append, heffects]

/-- What is neither written nor published is no effect. -/
theorem record_right (h : d.SameEffects e) {event : Event} (hevent : event.announced? = none) :
    d.SameEffects (e.record event) := by
  refine ⟨h.policy, h.store, h.effects.trans ?_⟩
  simp [Directory.effects, hevent]

theorem commit (h : d.SameEffects e) (s : Service) (clock : Millis) :
    (d.commit s clock).SameEffects (e.commit s clock) :=
  ⟨h.policy, congrArg (·.commit s.key s clock) h.store, h.effects⟩

theorem announce (h : d.SameEffects e) (s : Service) (c : Conditions) :
    (d.announce s c).SameEffects (e.announce s c) := by
  rw [Directory.announce, Directory.announce, h.store]
  exact (h.record _).record _

/-- What a document comes to depends on the store and the setup alone. -/
theorem receive (h : d.SameEffects e) (a : Arrival) :
    (d.receive a).2.SameEffects (e.receive a).2 := by
  have hjudge : ∀ s, d.judge s = e.judge s := by
    intro s
    rw [judge, judge, h.policy, h.store]
  simp only [Directory.receive, hjudge]
  split
  · exact h.record _
  · rename_i s hs
    cases e.judge s with
    | rejected => exact h.record _
    | ignoredEmpty => exact h.record _
    | unchanged => exact (h.record _).commit s _
    | changed => exact ((h.record _).commit s _).announce s _

theorem receiveAll (h : d.SameEffects e) (arrivals : List Arrival) :
    (d.receiveAll arrivals).SameEffects (e.receiveAll arrivals) := by
  induction arrivals generalizing d e with
  | nil => exact h
  | cons a rest ih => exact ih (h.receive a)

/-- Documents that are no service may be left out. -/
theorem receiveAll_filter (h : d.SameEffects e) {keep : Arrival → Bool} {arrivals : List Arrival}
    (hskip : ∀ a ∈ arrivals, keep a = false → Service.parse? a.text = none) :
    (d.receiveAll arrivals).SameEffects (e.receiveAll (arrivals.filter keep)) := by
  induction arrivals generalizing d e with
  | nil => exact h
  | cons a rest ih =>
      have hrest := fun b hb => hskip b (List.mem_cons_of_mem _ hb)
      cases hkeep : keep a with
      | true =>
          rw [List.filter_cons_of_pos hkeep]
          exact ih (h.receive a) hrest
      | false =>
          rw [List.filter_cons_of_neg (by simp [hkeep])]
          refine ih ?_ hrest
          have hnone := hskip a (by simp) hkeep
          simp only [Directory.receive, hnone]
          exact (h.symm.record_right rfl).symm

theorem refresh (h : d.SameEffects e) (a : Arrival) (name clusters : String) :
    (d.receive a).2.SameEffects (e.refresh (fun _ => .ofArrival a) name clusters) := by
  rw [Directory.refresh, settleSingle_eq, Answer.single_ofArrival]
  change (d.receiveAll [a]).SameEffects _
  apply (h.record_right rfl).receiveAll_filter
  intro b _ hblank
  exact Service.parse?_of_allBlank (by simpa using hblank)

theorem refreshes (h : d.SameEffects e) (arrivals : List Arrival) (names clusters : Nat → String) :
    (d.receiveAll arrivals).SameEffects
      (e.after (arrivals.mapIdx fun i a =>
        .refresh (fun _ => .ofArrival a) (names i) (clusters i))) := by
  induction arrivals generalizing d e names clusters with
  | nil => exact h
  | cons a rest ih =>
      rw [List.mapIdx_cons]
      exact ih (h.refresh a (names 0) (clusters 0)) (fun i => names (i + 1))
        fun i => clusters (i + 1)

theorem refreshAll (h : d.SameEffects e) (arrivals : List Arrival) (names : List String)
    (clusters : KeyMap String String) (findBack : Bool) :
    (d.receiveAll arrivals).SameEffects
      (e.refreshAll (fun _ => .ofArrivals arrivals) names clusters findBack) := by
  rw [Directory.refreshAll, settleBatch_eq, Answer.batch_ofArrivals]
  apply (h.record_right rfl).receiveAll_filter
  intro a _ hempty
  exact Service.parse?_of_isEmpty (by simpa using hempty)

end SameEffects

/-- By every route documents leave the same store with the same stamps, and the same writes and
calls of the sink in the same order: received one by one, as the replies of single queries, as
the texts of one batched reply, or as pushes that receiver and directory work off in turns, as
they can be and in whatever order. -/
theorem routes_converge (d : Directory) (arrivals : List Arrival) :
    (∀ names clusters : Nat → String,
        (d.receiveAll arrivals).SameEffects
          (d.after (arrivals.mapIdx fun i a =>
            .refresh (fun _ => .ofArrival a) (names i) (clusters i)))) ∧
      (∀ names clusters findBack,
        (d.receiveAll arrivals).SameEffects
          (d.refreshAll (fun _ => .ofArrivals arrivals) names clusters findBack)) ∧
      ∀ packets : List Push.Packet, packets.map (·.data) = arrivals.map (·.text) →
        (∀ p ∈ packets, p.IsPush) → ∀ line : Push.Line,
          line = { unread := packets.map (·.datagram), directory := d } →
          (∃ turns : List (Option Conditions), turns.filterMap id = arrivals.map (·.conditions) ∧
            (line.run? (turns.map .ofTurn)).isSome = true) ∧
          ∀ (turns : List (Option Conditions)) l, turns.filterMap id = arrivals.map (·.conditions) →
            line.run? (turns.map .ofTurn) = some l →
              l.unread = [] ∧ l.queue = [] ∧ (d.receiveAll arrivals).SameEffects l.directory := by
  refine ⟨(SameEffects.refl d).refreshes arrivals, (SameEffects.refl d).refreshAll arrivals, ?_⟩
  rintro packets hdata hpush line rfl
  have hcarries := Push.Line.carries_datagrams hpush d
  rw [hdata] at hcarries
  constructor
  · have hlength : (arrivals.map (·.conditions)).length = (arrivals.map (·.text)).length := by
      rw [List.length_map, List.length_map]
    obtain ⟨turns, l, hturns, hrun, _⟩ := hcarries.exists_run hlength
    exact ⟨turns, hturns, by rw [hrun]; rfl⟩
  · intro turns l hturns hrun
    obtain ⟨taken, rest, htexts, hlength, hcarries', hdirectory⟩ := hcarries.run hrun
    rw [hturns] at hlength hdirectory
    -- as many are taken in as there are, so none is left
    have htotal := congrArg List.length htexts
    simp only [List.length_map, List.length_append] at hlength htotal
    obtain rfl : rest = [] := List.length_eq_zero_iff.mp (by omega)
    rw [List.append_nil] at htexts
    obtain ⟨hunread, hqueue⟩ := hcarries'.drained
    have harrivals : List.zipWith Arrival.mk (arrivals.map (·.text))
        (arrivals.map (·.conditions)) = arrivals := by
      rw [List.zipWith_map, List.zipWith_self]
      exact List.map_id'' (fun _ => rfl) arrivals
    refine ⟨hunread, hqueue, ?_⟩
    rw [hdirectory, ← htexts, harrivals]
    exact SameEffects.refl _

/-- A document with a host, one that is no JSON, a blank one and an empty one. -/
def mixedArrivals : List Arrival :=
  [⟨"[\"a\",\"\",\"\",1000,[[\"\",\"10.0.0.1\",80]]]", { clock := 1 }⟩,
    ⟨"no \"JSON\"", { clock := 2 }⟩, ⟨"\t ", { clock := 3 }⟩, ⟨"", { clock := 4 }⟩]

/-- The same documents in packets of both kinds. -/
def mixedPackets : List Push.Packet :=
  [{ kind := "dom", data := "[\"a\",\"\",\"\",1000,[[\"\",\"10.0.0.1\",80]]]" },
    { kind := "service", data := "no \"JSON\"", lastRefTime := 7 },
    { kind := "dom", data := "\t " }, { kind := "service" }]

theorem mixedArrivals_converge :
    mixedPackets.map (·.data) = mixedArrivals.map (·.text) ∧ (∀ p ∈ mixedPackets, p.IsPush) ∧
      ∃ (turns : List (Option Conditions)) (l : Push.Line),
        turns.filterMap id = mixedArrivals.map (·.conditions) ∧
        ({ unread := mixedPackets.map (·.datagram) } : Push.Line).run? (turns.map .ofTurn) =
          some l ∧
        (({} : Directory).receiveAll mixedArrivals).SameEffects l.directory := by
  have hdata : mixedPackets.map (·.data) = mixedArrivals.map (·.text) := rfl
  have hpush : ∀ p ∈ mixedPackets, p.IsPush := by
    intro p hp
    simp only [mixedPackets, List.mem_cons, List.not_mem_nil, or_false] at hp
    rcases hp with rfl | rfl | rfl | rfl <;> exact ⟨by decide, by decide +kernel⟩
  obtain ⟨⟨turns, hturns, hrun⟩, hall⟩ :=
    (routes_converge {} mixedArrivals).2.2 mixedPackets hdata hpush _ rfl
  obtain ⟨l, hl⟩ := Option.isSome_iff_exists.mp hrun
  exact ⟨hdata, hpush, turns, l, hturns, hl, (hall turns l hturns hl).2.2⟩

end Directory

end ServiceDirectory
