import ServiceDirectory.Proofs.Stamps

/-!
# What becomes of a document

Each verdict has a reason, and to every document in every state exactly one of the
four reasons applies. What is dropped leaves nothing but the note of its verdict.
What is taken over replaces the entry of its service and the stamp, and only what is
news goes any further: to the disk, then to the sink, and both find the new entry in
the store. That they fail makes no difference to the verdict, to the store or to who is
told.
-/

namespace ServiceDirectory

/-- A snapshot is taken over with its time, and everything else in the store stays. -/
structure Store.Supersedes (store later : Store) (s : Service) (clock : Millis) : Prop where
  snapshot : later.get? s.key = some s
  stamp : later.stamps.get? s.key = some clock
  others : ∀ key, key ≠ s.key →
    later.get? key = store.get? key ∧ later.stamps.get? key = store.stamps.get? key

theorem Store.supersedes_commit (store : Store) (s : Service) (clock : Millis) :
    store.Supersedes (store.commit s.key s clock) s clock := by
  constructor
  · rw [get?_commit, if_pos rfl]
  · rw [Directory.stamps_commit, if_pos rfl, Option.some_or]
  · intro key hkey
    rw [get?_commit, Directory.stamps_commit, if_neg hkey.symm, if_neg hkey.symm, Option.none_or]
    exact ⟨rfl, rfl⟩

/-- An event as it would be if neither disk nor sink had failed. -/
def Event.smoothed : Event → Event
  | .wrote s _ seen => .wrote s true seen
  | .published s _ seen => .published s false seen
  | event => event

namespace Directory

/-- The service is known, and a document of it without hosts may not replace its snapshot. -/
structure Shields (d : Directory) (s : Service) : Prop where
  known : d.store.contains s.key = true
  policy : d.policy.applyEmpty = false
  empty : s.hosts = []

/-- The snapshot that the store has of the service has the same hosts, in whatever order. -/
def HasSameHosts (d : Directory) (s : Service) : Prop :=
  ∃ old, d.store.get? s.key = some old ∧ old.hosts.Perm s.hosts

/-- The reason for each verdict on a text. -/
def Reason (d : Directory) (text : String) : Verdict → Prop
  | .rejected => Service.parse? text = none
  | .ignoredEmpty => ∃ s, Service.parse? text = some s ∧ d.Shields s
  | .unchanged => ∃ s, Service.parse? text = some s ∧ ¬ d.Shields s ∧ d.HasSameHosts s
  | .changed => ∃ s, Service.parse? text = some s ∧ ¬ d.Shields s ∧ ¬ d.HasSameHosts s

variable {d : Directory}

/-! ## One reason for each document -/

theorem reason_iff_of_parse?_eq_none {text : String} (hs : Service.parse? text = none)
    {verdict : Verdict} : d.Reason text verdict ↔ verdict = .rejected := by
  cases verdict <;> simp [Reason, hs]

theorem reason_iff_of_parse? {text : String} {s : Service} (hs : Service.parse? text = some s)
    {verdict : Verdict} :
    d.Reason text verdict ↔
      verdict = .ignoredEmpty ∧ d.Shields s ∨
        verdict = .unchanged ∧ ¬ d.Shields s ∧ d.HasSameHosts s ∨
        verdict = .changed ∧ ¬ d.Shields s ∧ ¬ d.HasSameHosts s := by
  cases verdict <;> simp [Reason, hs]

/-- No two verdicts have a reason on the same text in the same state. -/
theorem Reason.unique {text : String} {verdict other : Verdict} (h : d.Reason text verdict)
    (h' : d.Reason text other) : verdict = other := by
  cases hs : Service.parse? text with
  | none =>
      rw [reason_iff_of_parse?_eq_none hs] at h h'
      exact h.trans h'.symm
  | some s =>
      rw [reason_iff_of_parse? hs] at h h'
      rcases h with ⟨rfl, h⟩ | ⟨rfl, h⟩ | ⟨rfl, h⟩ <;>
        rcases h' with ⟨rfl, h'⟩ | ⟨rfl, h'⟩ | ⟨rfl, h'⟩ <;> first | rfl | tauto

/-- What is news is not shielded against. -/
theorem IsNews.not_shields {s : Service} (h : d.IsNews s) : ¬ d.Shields s := by
  intro hshields
  exact h.hosts_ne_nil hshields.policy hshields.known hshields.empty

theorem IsNews.not_hasSameHosts {s : Service} (h : d.IsNews s) : ¬ d.HasSameHosts s := by
  rintro ⟨old, hold, hsame⟩
  exact (h old hold).2 hsame

/-- The verdict on a document is the one that there is a reason for. -/
theorem reason_receive (d : Directory) (a : Arrival) : d.Reason a.text (d.receive a).1 := by
  generalize hr : d.receive a = result
  cases received hr with
  | rejected hs => exact hs
  | @ignored s old hs hold hpolicy hempty =>
      exact ⟨s, hs, Store.contains_iff.mpr ⟨old, hold⟩, hpolicy, hempty⟩
  | @unchanged s old hs hold hkeep hsame =>
      refine ⟨s, hs, ?_, old, hold, hsame⟩
      intro hshields
      rcases hkeep with happly | hne
      · rw [hshields.policy] at happly
        cases happly
      · exact hne hshields.empty
  | @changed s hs hnews => exact ⟨s, hs, hnews.not_shields, hnews.not_hasSameHosts⟩

/-! ## What comes of it -/

/-- Whether disk and sink fail is noted, and nothing else comes of it. -/
theorem receive_congr_clock (d : Directory) (text : String) {c c' : Conditions}
    (h : c.clock = c'.clock) :
    (d.receive ⟨text, c⟩).1 = (d.receive ⟨text, c'⟩).1 ∧
      (d.receive ⟨text, c⟩).2.store = (d.receive ⟨text, c'⟩).2.store ∧
      (d.receive ⟨text, c⟩).2.events.map Event.smoothed =
        (d.receive ⟨text, c'⟩).2.events.map Event.smoothed := by
  rw [receive, receive]
  cases Service.parse? text with
  | none => simp [h]
  | some s =>
      dsimp only
      cases d.judge s <;> simp [h, Event.smoothed]

/-- All that becomes of a document: its verdict has a reason and no other verdict has one, and
what happens is what the verdict demands. -/
structure Settled (d : Directory) (a : Arrival) (verdict : Verdict) (later : Directory) :
    Prop where
  reason : ∀ v, d.Reason a.text v ↔ v = verdict
  policy : later.policy = d.policy
  /-- What is dropped leaves a note. -/
  dropped : verdict = .rejected ∨ verdict = .ignoredEmpty →
    later.store = d.store ∧
      later.events = d.events ++ [.judged a.text a.conditions.clock verdict]
  /-- What is not news is taken over, and nobody is told. -/
  refreshed : verdict = .unchanged → ∃ s, Service.parse? a.text = some s ∧
    d.store.Supersedes later.store s a.conditions.clock ∧
    later.events = d.events ++ [.judged a.text a.conditions.clock verdict]
  /-- What is news is taken over, written once and published once; disk and sink find it in the
  store. -/
  announced : verdict = .changed → ∃ s, Service.parse? a.text = some s ∧
    d.store.Supersedes later.store s a.conditions.clock ∧
    later.events = d.events ++ [.judged a.text a.conditions.clock verdict,
      .wrote s (!a.conditions.writeFails) later.store,
      .published s a.conditions.sinkFails later.store]
  /-- If disk and sink fail, or do not, all else is the same. -/
  unfailing : ∀ c : Conditions, c.clock = a.conditions.clock →
    (d.receive ⟨a.text, c⟩).1 = verdict ∧ (d.receive ⟨a.text, c⟩).2.store = later.store ∧
      (d.receive ⟨a.text, c⟩).2.events.map Event.smoothed = later.events.map Event.smoothed

/-- In every state, under every policy and whatever disk and sink do, a document is dropped, taken
over silently, or taken over and announced, exactly for the reason of the verdict. -/
theorem receive_settled (d : Directory) (a : Arrival) :
    d.Settled a (d.receive a).1 (d.receive a).2 := by
  have hreason := d.reason_receive a
  have hcongr : ∀ c : Conditions, c.clock = a.conditions.clock →
      (d.receive ⟨a.text, c⟩).1 = (d.receive a).1 ∧
        (d.receive ⟨a.text, c⟩).2.store = (d.receive a).2.store ∧
        (d.receive ⟨a.text, c⟩).2.events.map Event.smoothed =
          (d.receive a).2.events.map Event.smoothed := fun c hc =>
    d.receive_congr_clock a.text hc
  generalize hr : d.receive a = result at hreason hcongr ⊢
  have hunique : ∀ v, d.Reason a.text v ↔ v = result.1 := by
    intro v
    constructor
    · intro hv
      exact hv.unique hreason
    · rintro rfl
      exact hreason
  cases received hr with
  | rejected hs => exact ⟨hunique, rfl, fun _ => ⟨rfl, rfl⟩, nofun, nofun, hcongr⟩
  | ignored hs hold hpolicy hempty =>
      exact ⟨hunique, rfl, fun _ => ⟨rfl, rfl⟩, nofun, nofun, hcongr⟩
  | @unchanged s old hs hold hkeep hsame =>
      refine ⟨hunique, rfl, by simp, ?_, nofun, hcongr⟩
      intro _
      exact ⟨s, hs, d.store.supersedes_commit s _, rfl⟩
  | @changed s hs hnews =>
      refine ⟨hunique, rfl, by simp, nofun, ?_, hcongr⟩
      intro _
      exact ⟨s, hs, d.store.supersedes_commit s _, announced_events d a s⟩

/-- A service with a host, under a policy by which a document may take it away. -/
def dispensable : Directory :=
  { policy := { applyEmpty := true }
    store := ({} : Store).commit ⟨"a", "y"⟩
      { name := "a", clusters := "y", hosts := [{ ip := "10.0.0.1", port := 80 }] } 5 }

/-- The document that takes it away, with the clusters spelled in another way. The clock was set
back, and disk and sink fail. -/
def dispensing : Arrival :=
  ⟨"[\"a\",\"\",\" y,, \"]", { clock := 4, writeFails := true, sinkFails := true }⟩

theorem dispensing_settled :
    ∃ s later, dispensable.receive dispensing = (.changed, later) ∧ s.hosts = [] ∧
      dispensable.store.Supersedes later.store s 4 ∧
      later.events = [.judged dispensing.text 4 .changed, .wrote s false later.store,
        .published s true later.store] := by
  have hverdict : (dispensable.receive dispensing).1 = .changed := by decide +kernel
  have hempty : ∀ s ∈ Service.parse? dispensing.text, s.hosts = [] := by decide +kernel
  have hsettled := receive_settled dispensable dispensing
  generalize dispensable.receive dispensing = result at hverdict hsettled ⊢
  obtain ⟨verdict, later⟩ := result
  obtain rfl : verdict = .changed := hverdict
  obtain ⟨s, hs, hstore, hevents⟩ := hsettled.announced rfl
  exact ⟨s, later, rfl, hempty s hs, hstore, hevents⟩

end Directory

end ServiceDirectory
