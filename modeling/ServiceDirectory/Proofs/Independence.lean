import ServiceDirectory.Proofs.Restart
import ServiceDirectory.Proofs.Stamps

/-!
# Services apart from each other

What becomes of a document depends on what the store holds for its service, and
changes nothing else. So a service fares as if the documents of the others had never
come, whatever these met at the disk and at the sink. On disk the rows of a service
are its own too, so only the order of documents of one service can matter.
-/

namespace ServiceDirectory

/-- Whether a document is one of a service. -/
def Arrival.isFor (key : ServiceKey) (a : Arrival) : Bool :=
  (Service.parse? a.text).map Service.key == some key

/-- The documents of a service, in the order in which they come. -/
def documentsOf (key : ServiceKey) (arrivals : List Arrival) : List Arrival :=
  arrivals.filter (·.isFor key)

/-- What a store holds for a key: a snapshot and a stamp. -/
def Store.about (store : Store) (key : ServiceKey) : Option Service × Option Millis :=
  (store.get? key, store.stamps.get? key)

/-- Something done for a service, with what the store holds for it at that moment. -/
inductive Effect where
  | wrote (service : Service) (succeeded : Bool) (seen : Option Service × Option Millis)
  | published (service : Service) (sinkFailed : Bool) (seen : Option Service × Option Millis)

/-- What an event does for a service. -/
def Event.effectFor? (key : ServiceKey) : Event → Option Effect
  | .wrote s succeeded seen =>
    if s.key = key then some (.wrote s succeeded (seen.about key)) else none
  | .published s sinkFailed seen =>
    if s.key = key then some (.published s sinkFailed (seen.about key)) else none
  | .judged _ _ _ | .asked _ => none

/-- The disk writes and the sink calls for a service. -/
def effectsFor (key : ServiceKey) (events : List Event) : List Effect :=
  events.filterMap (Event.effectFor? key)

/-- The snapshot that an effect leaves on disk. -/
def Effect.stored? : Effect → Option Service
  | .wrote s succeeded _ => if succeeded then some s else none
  | .published _ _ _ => none

theorem Arrival.isFor_iff {key : ServiceKey} {a : Arrival} :
    a.isFor key = true ↔ ∃ s, Service.parse? a.text = some s ∧ s.key = key := by
  simp [isFor]

theorem Store.about_commit (store : Store) (s : Service) (clock : Millis) (key : ServiceKey) :
    (store.commit s.key s clock).about key =
      if s.key = key then (some s, some clock) else store.about key := by
  rw [about, get?_commit, Directory.stamps_commit]
  split <;> rfl

theorem Store.ext_about {store other : Store} (h : ∀ key, store.about key = other.about key) :
    store = other := by
  have hsnapshots : store.snapshots = other.snapshots :=
    KeyMap.ext_get? fun key => congrArg Prod.fst (h key)
  have hstamps : store.stamps = other.stamps :=
    KeyMap.ext_get? fun key => congrArg Prod.snd (h key)
  cases store
  cases other
  exact congrArg₂ Store.mk hsnapshots hstamps

theorem effectsFor_append (key : ServiceKey) (first rest : List Event) :
    effectsFor key (first ++ rest) = effectsFor key first ++ effectsFor key rest :=
  List.filterMap_append

theorem effectsFor_cons (key : ServiceKey) (event : Event) (rest : List Event) :
    effectsFor key (event :: rest) = (event.effectFor? key).toList ++ effectsFor key rest := by
  rw [effectsFor, List.filterMap_cons]
  cases event.effectFor? key <;> rfl

/-! ## The rows of a service -/

namespace Archive

/-- The rows of a service, in the order in which they are read; without a key, the rows whose name
and clusters are not both texts. -/
def rowsOf (key? : Option ServiceKey) (rows : List Row) : List Row := rows.filter (·.key? = key?)

/-- A snapshot that takes the place of rows takes it among the rows of its service. -/
theorem rowsOf_replace (rows : List Row) (s : Service) (key? : Option ServiceKey) :
    rowsOf key? (rows.map fun r => if r.sameSlot (Row.ofService s) then Row.ofService s else r) =
      (rowsOf key? rows).map fun r =>
        if r.sameSlot (Row.ofService s) then Row.ofService s else r := by
  rw [rowsOf, List.filter_map, rowsOf]
  congr 1
  apply List.filter_congr
  intro r _
  cases hr : r.sameSlot (Row.ofService s) with
  | true => simp [hr, Row.key?_ofService, Row.key?_of_sameSlot_ofService hr]
  | false => simp [hr]

/-- Whether a snapshot has rows to replace is seen from the rows of its service. -/
theorem any_sameSlot_rowsOf (rows : List Row) (s : Service) :
    (rowsOf (some s.key) rows).any (·.sameSlot (Row.ofService s)) =
      rows.any (·.sameSlot (Row.ofService s)) := by
  rw [rowsOf, List.any_filter]
  congr 1
  funext r
  cases hr : r.sameSlot (Row.ofService s) with
  | true => simp [Row.key?_of_sameSlot_ofService hr]
  | false => simp

/-- A snapshot is put among the rows of its service. -/
theorem rowsOf_upsert (rows : List Row) (s : Service) (key? : Option ServiceKey) :
    rowsOf key? (upsert rows (Row.ofService s)) =
      if some s.key = key? then upsert (rowsOf key? rows) (Row.ofService s)
      else rowsOf key? rows := by
  by_cases hkey : some s.key = key?
  · subst hkey
    rw [if_pos rfl, upsert, upsert, any_sameSlot_rowsOf]
    split
    · exact rowsOf_replace rows s (some s.key)
    · rw [rowsOf, List.filter_append, rowsOf]
      simp [Row.key?_ofService]
  · rw [if_neg hkey, upsert]
    split
    · rw [rowsOf_replace]
      -- None of the rows of another service is in the slot of the snapshot.
      apply (List.map_congr_left fun r hr => ?_).trans (List.map_id _)
      have hother : r.sameSlot (Row.ofService s) = false := by
        rw [← Bool.not_eq_true]
        intro hsame
        exact hkey ((Row.key?_of_sameSlot_ofService hsame).symm.trans
          (by simpa using List.of_mem_filter hr))
      rw [hother, if_neg (by decide), id]
    · simp [rowsOf, Row.key?_ofService, hkey]

/-- The snapshot in the last of the rows for a key that hold one. -/
def lastSnapshot (key : ServiceKey) (rows : List Row) : Option Service :=
  ((rowsOf (some key) rows).filterMap Row.snapshot?).getLast?

theorem get?_entries (rows : List Row) (key : ServiceKey) :
    (entries rows).get? key = lastSnapshot key rows := by
  have hown : (rows.filterMap Row.reading?).filter (·.1 = key) =
      ((rowsOf (some key) rows).filterMap Row.snapshot?).map (key, ·) := by
    rw [rowsOf, List.filterMap_filter, List.filter_filterMap, List.map_filterMap]
    apply List.filterMap_congr
    intro r _
    rw [r.reading?_eq]
    cases r.key? with
    | none => simp
    | some own => by_cases hkey : own = key <;> cases r.snapshot? <;> simp [hkey]
  rw [entries, KeyMap.get?_ofList, hown, List.getLast?_map, Option.map_map, lastSnapshot]
  exact Option.map_id'

/-- What is read for a key is read from its own rows. -/
theorem get?_entries_rowsOf (rows : List Row) (key : ServiceKey) :
    (entries rows).get? key = (entries (rowsOf (some key) rows)).get? key := by
  have hrows : rowsOf (some key) (rowsOf (some key) rows) = rowsOf (some key) rows := by
    simp [rowsOf]
  rw [get?_entries, get?_entries, lastSnapshot, lastSnapshot, hrows]

/-- Rows of which each service has the same ones in the same order are read alike. -/
theorem read_eq_of_rowsOf {rows others : List Row}
    (h : ∀ key?, rowsOf key? rows = rowsOf key? others) :
    (read ⟨.rows rows⟩).1 = (read ⟨.rows others⟩).1 := by
  have hmem : ∀ r, r ∈ rows ↔ r ∈ others := by
    intro r
    have hown : ∀ l : List Row, r ∈ rowsOf r.key? l ↔ r ∈ l := by simp [rowsOf]
    rw [← hown rows, h, hown others]
  have htexts : rows.all Row.isText = others.all Row.isText := by
    rw [Bool.eq_iff_iff, List.all_eq_true, List.all_eq_true]
    exact forall_congr' fun r => imp_congr_left (hmem r)
  have hentries : entries rows = entries others := by
    apply KeyMap.ext_get?
    intro key
    rw [get?_entries_rowsOf, h, ← get?_entries_rowsOf]
  simp only [read, htexts, hentries]
  split <;> rfl

/-- After events, the rows of a service are as what was done for it leaves them, and the rows of no
service are as they were. -/
theorem following_rows (rows : List Row) (events : List Event) :
    ∃ after, (⟨.rows rows⟩ : Archive).following events = ⟨.rows after⟩ ∧
      rowsOf none after = rowsOf none rows ∧
      ∀ key, rowsOf (some key) after = ((effectsFor key events).filterMap Effect.stored?).foldl
        (fun rows s => upsert rows (Row.ofService s)) (rowsOf (some key) rows) := by
  induction events generalizing rows with
  | nil => exact ⟨rows, rfl, rfl, fun _ => rfl⟩
  | cons event rest ih =>
      cases event with
      | judged text clock verdict => exact ih rows
      | asked query => exact ih rows
      | published s sinkFailed seen =>
          obtain ⟨after, hafter, hnone, hrows⟩ := ih rows
          refine ⟨after, hafter, hnone, fun key => ?_⟩
          rw [hrows, effectsFor_cons, Event.effectFor?]
          by_cases hkey : s.key = key <;> simp [hkey, Effect.stored?, List.filterMap_cons]
      | wrote s succeeded seen =>
          cases succeeded with
          | false =>
              obtain ⟨after, hafter, hnone, hrows⟩ := ih rows
              refine ⟨after, hafter, hnone, fun key => ?_⟩
              rw [hrows, effectsFor_cons, Event.effectFor?]
              by_cases hkey : s.key = key <;> simp [hkey, Effect.stored?]
          | true =>
              obtain ⟨after, hafter, hnone, hrows⟩ := ih (upsert rows (Row.ofService s))
              rw [rowsOf_upsert, if_neg (by simp)] at hnone
              refine ⟨after, hafter, hnone, fun key => ?_⟩
              rw [hrows, rowsOf_upsert, effectsFor_cons, Event.effectFor?]
              by_cases hkey : s.key = key <;> simp [hkey, Effect.stored?]

/-- Nothing is read any more once the table was dropped. -/
theorem following_dropped (noticed : Bool) (events : List Event) :
    ((⟨.dropped noticed⟩ : Archive).following events).read.1.toOption = none := by
  induction events generalizing noticed with
  | nil => rfl
  | cons event rest ih =>
      cases event with
      | judged text clock verdict => exact ih noticed
      | asked query => exact ih noticed
      | published s sinkFailed seen => exact ih noticed
      | wrote s succeeded seen =>
          cases succeeded with
          | false => exact ih noticed
          | true => exact ih true

/-- Events that do the same for each service lead to the same map on disk. -/
theorem read_following_eq (archive : Archive) {events others : List Event}
    (h : ∀ key, effectsFor key events = effectsFor key others) :
    (archive.following events).read.1.toOption = (archive.following others).read.1.toOption := by
  obtain ⟨table⟩ := archive
  cases table with
  | dropped noticed => rw [following_dropped, following_dropped]
  | rows rows =>
      obtain ⟨after, hafter, hnone, hrows⟩ := following_rows rows events
      obtain ⟨after', hafter', hnone', hrows'⟩ := following_rows rows others
      have hsame : ∀ key?, rowsOf key? after = rowsOf key? after' := by
        intro key?
        cases key? with
        | none => rw [hnone, hnone']
        | some key => rw [hrows, hrows', h]
      rw [hafter, hafter', read_eq_of_rowsOf hsame]

end Archive

namespace Directory

/-! ## Two runs that are the same for a service -/

/-- Two directories that are the same as far as a service goes. -/
structure SameFor (key : ServiceKey) (d e : Directory) : Prop where
  policy : d.policy = e.policy
  held : d.store.about key = e.store.about key
  effects : effectsFor key d.events = effectsFor key e.events

variable {key : ServiceKey} {d e : Directory}

namespace SameFor

theorem refl (key : ServiceKey) (d : Directory) : SameFor key d d := ⟨rfl, rfl, rfl⟩

theorem symm (h : SameFor key d e) : SameFor key e d :=
  ⟨h.policy.symm, h.held.symm, h.effects.symm⟩

theorem trans {f : Directory} (h : SameFor key d e) (h' : SameFor key e f) : SameFor key d f :=
  ⟨h.policy.trans h'.policy, h.held.trans h'.held, h.effects.trans h'.effects⟩

theorem record (h : SameFor key d e) {event other : Event}
    (hevent : event.effectFor? key = other.effectFor? key) :
    SameFor key (d.record event) (e.record other) := by
  refine ⟨h.policy, h.held, ?_⟩
  rw [record_events, record_events, effectsFor_append, effectsFor_append, h.effects,
    effectsFor_cons, effectsFor_cons, hevent]

theorem commit (h : SameFor key d e) (s : Service) (clock : Millis) :
    SameFor key (d.commit s clock) (e.commit s clock) := by
  refine ⟨h.policy, ?_, h.effects⟩
  rw [commit_store, commit_store, Store.about_commit, Store.about_commit, h.held]

theorem announce (h : SameFor key d e) (s : Service) (c : Conditions) :
    SameFor key (d.announce s c) (e.announce s c) := by
  apply SameFor.record
  · apply h.record
    rw [Event.effectFor?, Event.effectFor?, h.held]
  · rw [Event.effectFor?, Event.effectFor?, h.held]

/-- A document of the service fares the same in both. -/
theorem receive (h : SameFor key d e) {a : Arrival} (ha : a.isFor key = true) :
    (d.receive a).1 = (e.receive a).1 ∧ SameFor key (d.receive a).2 (e.receive a).2 := by
  obtain ⟨s, hs, rfl⟩ := Arrival.isFor_iff.mp ha
  have hget : d.store.get? s.key = e.store.get? s.key := congrArg Prod.fst h.held
  have hjudge : d.judge s = e.judge s := by
    simp only [judge, hget, h.policy]
  have hjudged : ∀ verdict, SameFor s.key (d.judged a verdict) (e.judged a verdict) := fun _ =>
    h.record rfl
  simp only [Directory.receive, hs, hjudge]
  cases e.judge s with
  | rejected => exact ⟨rfl, hjudged _⟩
  | ignoredEmpty => exact ⟨rfl, hjudged _⟩
  | unchanged => exact ⟨rfl, (hjudged _).commit s _⟩
  | changed => exact ⟨rfl, ((hjudged _).commit s _).announce s _⟩

end SameFor

/-- A document that is not one of the service leaves everything as it was for it. -/
theorem sameFor_receive_of_other {a : Arrival} (ha : a.isFor key = false) :
    SameFor key (d.receive a).2 d := by
  have hother : ∀ s, Service.parse? a.text = some s → s.key ≠ key := by
    intro s hs hkey
    rw [Arrival.isFor_iff.mpr ⟨s, hs, hkey⟩] at ha
    cases ha
  generalize hr : d.receive a = result
  cases received hr with
  | rejected hs =>
      exact ⟨rfl, rfl, by simp [effectsFor, Event.effectFor?]⟩
  | ignored hs hold hpolicy hempty =>
      exact ⟨rfl, rfl, by simp [effectsFor, Event.effectFor?]⟩
  | unchanged hs hold hkeep hsame =>
      refine ⟨rfl, ?_, by simp [effectsFor, Event.effectFor?]⟩
      rw [refreshed_store, Store.about_commit, if_neg (hother _ hs)]
  | changed hs hnews =>
      refine ⟨rfl, ?_, by simp [effectsFor, Event.effectFor?, hother _ hs]⟩
      rw [announced_store, Store.about_commit, if_neg (hother _ hs)]

/-- Of two runs one may leave out the documents of the other services. -/
theorem SameFor.receiveAll (h : SameFor key d e) (arrivals : List Arrival) :
    (d.judgements (arrivals.map .take)).filter (·.1.isFor key) =
        e.judgements ((documentsOf key arrivals).map .take) ∧
      SameFor key (d.receiveAll arrivals) (e.receiveAll (documentsOf key arrivals)) := by
  induction arrivals generalizing d e with
  | nil => exact ⟨rfl, h⟩
  | cons a rest ih =>
      rw [List.map_cons, judgements, judgement?, List.filter_append, documentsOf]
      cases ha : a.isFor key with
      | false =>
          obtain ⟨hjudgements, hrest⟩ := ih ((sameFor_receive_of_other ha).trans h)
          rw [List.filter_cons_of_neg (by simp [ha])]
          exact ⟨by simpa [ha, step, documentsOf] using hjudgements, hrest⟩
      | true =>
          obtain ⟨hverdict, hreceived⟩ := h.receive ha
          obtain ⟨hjudgements, hrest⟩ := ih hreceived
          rw [List.filter_cons_of_pos (by simp [ha]), List.map_cons, judgements, judgement?]
          exact ⟨by simpa [ha, hverdict, step, documentsOf] using hjudgements, hrest⟩

/-- Documents in an order that is the same for a service do the same for it. -/
theorem sameFor_receiveAll (d : Directory) {arrivals others : List Arrival} (key : ServiceKey)
    (h : documentsOf key others = documentsOf key arrivals) :
    SameFor key (d.receiveAll others) (d.receiveAll arrivals) := by
  have hothers := ((SameFor.refl key d).receiveAll others).2
  rw [h] at hothers
  exact hothers.trans ((SameFor.refl key d).receiveAll arrivals).2.symm

/-- Only what the runs themselves add is compared. -/
theorem SameFor.recorded {first second : List Arrival}
    (h : SameFor key (d.receiveAll first) (d.receiveAll second)) :
    effectsFor key (d.recorded (first.map .take)) =
      effectsFor key (d.recorded (second.map .take)) := by
  have heffects := h.effects
  rw [← run_take, ← run_take, events_run, events_run, effectsFor_append,
    effectsFor_append] at heffects
  exact List.append_cancel_left heffects

/-- From whatever state: what becomes of the documents of a service, what the store holds for it in
the end, and what is written to disk and published for it are as in the run that leaves out the
documents of all other services. So documents that come in another order, but in the same one for
each service, lead to the same store and the same map on disk, and do the same for each service. -/
theorem services_independent (d : Directory) (arrivals : List Arrival) :
    (∀ key, let own := documentsOf key arrivals
      (d.judgements (arrivals.map .take)).filter (·.1.isFor key) =
          d.judgements (own.map .take) ∧
        (d.receiveAll arrivals).store.about key = (d.receiveAll own).store.about key ∧
        effectsFor key (d.recorded (arrivals.map .take)) =
          effectsFor key (d.recorded (own.map .take))) ∧
      ∀ others : List Arrival, (∀ key, documentsOf key others = documentsOf key arrivals) →
        (d.receiveAll others).store = (d.receiveAll arrivals).store ∧
          (∀ archive : Archive,
            (archive.following (d.recorded (others.map .take))).read.1.toOption =
              (archive.following (d.recorded (arrivals.map .take))).read.1.toOption) ∧
          ∀ key, effectsFor key (d.recorded (others.map .take)) =
            effectsFor key (d.recorded (arrivals.map .take)) := by
  refine ⟨fun key => ?_, fun others hothers => ?_⟩
  · obtain ⟨hjudgements, hsame⟩ := (SameFor.refl key d).receiveAll arrivals
    exact ⟨hjudgements, hsame.held, hsame.recorded⟩
  · have hsame := fun key => sameFor_receiveAll d key (hothers key)
    have heffects := fun key => (hsame key).recorded
    exact ⟨Store.ext_about fun key => (hsame key).held,
      fun archive => archive.read_following_eq heffects, heffects⟩

/-- Documents of two services in turn; the first one of the second service meets a failing disk and
a failing sink, the last one spells its clusters in another way. -/
def mingled : List Arrival :=
  [⟨"[\"a\",\"\",\"y\"]", { clock := 1 }⟩,
    ⟨"[\"b\"]", { clock := 2, writeFails := true, sinkFails := true }⟩,
    ⟨"[\"a\",\"\",\"y , ,y\",1000,[[\"\",\"10.0.0.1\",80]]]", { clock := 3 }⟩]

/-- The same documents, those of the second service first. -/
def regrouped : List Arrival :=
  [⟨"[\"b\"]", { clock := 2, writeFails := true, sinkFails := true }⟩,
    ⟨"[\"a\",\"\",\"y\"]", { clock := 1 }⟩,
    ⟨"[\"a\",\"\",\"y , ,y\",1000,[[\"\",\"10.0.0.1\",80]]]", { clock := 3 }⟩]

theorem regrouped_services_independent :
    (∀ key, documentsOf key regrouped = documentsOf key mingled) ∧
      (receiveAll {} regrouped).store = (receiveAll {} mingled).store ∧
      (judgements {} (mingled.map .take)).map (·.2) = [.changed, .changed, .changed] := by
  have hkeys : mingled.map (fun a => (Service.parse? a.text).map Service.key) =
      [some ⟨"a", "y"⟩, some ⟨"b", ""⟩, some ⟨"a", "y"⟩] := by
    decide +kernel
  have hsame : ∀ key, documentsOf key regrouped = documentsOf key mingled := by
    intro key
    simp only [mingled, List.map_cons, List.map_nil, List.cons.injEq] at hkeys
    obtain ⟨hfirst, hsecond, hthird, _⟩ := hkeys
    by_cases ha : (⟨"a", "y"⟩ : ServiceKey) = key
    · subst ha
      simp [documentsOf, regrouped, mingled, Arrival.isFor, hfirst, hsecond, hthird]
    · simp [documentsOf, regrouped, mingled, Arrival.isFor, hfirst, hthird, ha, List.filter_cons]
  exact ⟨hsame, ((services_independent {} mingled).2 regrouped hsame).1, by decide +kernel⟩

end Directory

end ServiceDirectory
