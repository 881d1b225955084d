import ServiceDirectory.Proofs.Runs

/-!
# Documents without hosts

Where a document without hosts may not replace a snapshot, none is written or
published for a service that is already known. Unless snapshots are replaced
silently, a service that has hosts then never loses all of them again.
-/

namespace ServiceDirectory

/-- The snapshot that an event hands to the sink. -/
def Event.published? : Event → Option Service
  | .published s _ _ => some s
  | _ => none

/-- The store has a host for a key. -/
def Store.HasHosts (store : Store) (key : ServiceKey) : Prop :=
  ∃ s, store.get? key = some s ∧ s.hosts ≠ []

namespace Directory

variable {d : Directory}

theorem IsNews.hosts_ne_nil {s : Service} (h : d.IsNews s)
    (hpolicy : d.policy.applyEmpty = false) (hknown : d.store.contains s.key = true) :
    s.hosts ≠ [] := by
  obtain ⟨old, hold⟩ := Store.contains_iff.mp hknown
  rcases (h old hold).1 with happly | hne
  · rw [hpolicy] at happly
    cases happly
  · exact hne

/-- A step announces nothing, or it takes in a document that is news. -/
theorem announces (d : Directory) (s : Step) :
    (∀ event ∈ d.recorded [s], event.announced? = none) ∨
      ∃ a t, d.step s = d.announced a t ∧ d.IsNews t := by
  have hnone : ∀ {event : Event}, event.announced? = none →
      ∀ e ∈ (d.events ++ [event]).drop d.events.length, e.announced? = none := by
    intro event hevent e he
    rw [List.drop_left, List.mem_singleton] at he
    exact he ▸ hevent
  cases s with
  | ask query => exact Or.inl (hnone rfl)
  | place name clusters => exact Or.inl (by simp [recorded, step])
  | load readings => exact Or.inl (by simp [recorded, step])
  | take a =>
      rw [recorded, run_cons, run_nil, step]
      generalize hr : d.receive a = result
      cases received hr with
      | rejected hs => exact Or.inl (hnone rfl)
      | ignored hs hold hpolicy hempty => exact Or.inl (hnone rfl)
      | unchanged hs hold hkeep hsame => exact Or.inl (hnone rfl)
      | changed hs hnews => exact Or.inr ⟨a, _, rfl, hnews⟩

theorem recorded_of_announced {s : Step} {a : Arrival} {t : Service}
    (h : d.step s = d.announced a t) :
    d.recorded [s] =
      [.judged a.text a.conditions.clock .changed,
        .wrote t (!a.conditions.writeFails) (d.announced a t).store,
        .published t a.conditions.sinkFails (d.announced a t).store] := by
  rw [recorded, run_cons, run_nil, h, announced_events, List.drop_left]

/-- A step writes or publishes no snapshot without hosts for a key that the store holds. -/
theorem get?_eq_none_of_announced? (hpolicy : d.policy.applyEmpty = false) (s : Step)
    {event : Event} (he : event ∈ d.recorded [s]) {t : Service}
    (ht : event.announced? = some t) (hempty : t.hosts = []) :
    d.store.get? t.key = none := by
  rcases announces d s with hnone | ⟨a, u, hstep, hnews⟩
  · rw [hnone event he] at ht
    cases ht
  · obtain rfl : u = t := by
      rw [recorded_of_announced hstep] at he
      simp only [List.mem_cons, List.not_mem_nil, or_false] at he
      rcases he with rfl | rfl | rfl
      · cases ht
      · exact Option.some.inj ht
      · exact Option.some.inj ht
    rw [← Store.contains_eq_false_iff, ← Bool.not_eq_true]
    intro hknown
    exact hnews.hosts_ne_nil hpolicy hknown hempty

theorem hasHosts_commit {store : Store} {s : Service} {clock : Millis} {key : ServiceKey}
    (h : store.HasHosts key) (hs : s.key = key → s.hosts ≠ []) :
    (store.commit s.key s clock).HasHosts key := by
  obtain ⟨t, ht, hne⟩ := h
  by_cases hkey : s.key = key
  · exact ⟨s, Store.get?_commit_eq_some_iff.mpr (Or.inl ⟨hkey, rfl⟩), hs hkey⟩
  · exact ⟨t, Store.get?_commit_eq_some_iff.mpr (Or.inr ⟨hkey, ht⟩), hne⟩

/-- A service with hosts keeps some through every step that replaces nothing silently. -/
theorem hasHosts_step (hpolicy : d.policy.applyEmpty = false) {s : Step}
    (hs : ¬ s.ReplacesSilently d) {key : ServiceKey} (h : d.store.HasHosts key) :
    (d.step s).store.HasHosts key := by
  cases s with
  | ask query => exact h
  | load readings => exact absurd trivial hs
  | place name clusters =>
      obtain ⟨t, ht, hne⟩ := h
      have hkey : ServiceKey.of name clusters ≠ key := by
        rintro rfl
        rw [get?_eq_none_of_place hs] at ht
        cases ht
      exact ⟨t, Store.get?_set_eq_some_iff.mpr (Or.inr ⟨hkey, ht⟩), hne⟩
  | take a =>
      rw [step]
      generalize hr : d.receive a = result
      cases received hr with
      | rejected hs => exact h
      | ignored hs hold hp hno => exact h
      | @unchanged s old hs hold hkeep hsame =>
          apply hasHosts_commit h
          intro _
          rcases hkeep with happly | hne
          · rw [hpolicy] at happly
            cases happly
          · exact hne
      | @changed s hs hnews =>
          apply hasHosts_commit h
          rintro rfl
          obtain ⟨t, ht, _⟩ := h
          apply hnews.hosts_ne_nil hpolicy
          exact Store.contains_iff.mpr ⟨t, ht⟩

theorem Candid.hasHosts_run (hpolicy : d.policy.applyEmpty = false) {steps : List Step}
    (hc : d.Candid steps) {key : ServiceKey} (h : d.store.HasHosts key) :
    (d.run steps).store.HasHosts key := by
  have hkept := hc.invariant (P := fun e => e.policy.applyEmpty = false ∧ e.store.HasHosts key)
    ⟨hpolicy, h⟩ fun e s he hs => ⟨by rw [step_policy, he.1], hasHosts_step he.1 hs he.2⟩
  exact hkept.2

/-- After a snapshot with hosts only snapshots with hosts are published for its key, and what was
published with hosts still has some in the store. -/
structure KeepsHosts (published : List Service) (store : Store) : Prop where
  pairwise : published.Pairwise fun s t => s.key = t.key → s.hosts ≠ [] → t.hosts ≠ []
  kept : ∀ s ∈ published, s.hosts ≠ [] → store.HasHosts s.key

theorem KeepsHosts.step {published : List Service} (h : KeepsHosts published d.store)
    (hpolicy : d.policy.applyEmpty = false) {s : Step} (hs : ¬ s.ReplacesSilently d) :
    KeepsHosts (published ++ (d.recorded [s]).filterMap Event.published?) (d.step s).store := by
  have hkept : ∀ t ∈ published, t.hosts ≠ [] → (d.step s).store.HasHosts t.key :=
    fun t ht hne => hasHosts_step hpolicy hs (h.kept t ht hne)
  rcases announces d s with hnone | ⟨a, t, hstep, hnews⟩
  · have hnil : (d.recorded [s]).filterMap Event.published? = [] := by
      rw [List.filterMap_eq_nil_iff]
      intro event he
      have hquiet := hnone event he
      cases event <;> first | rfl | cases hquiet
    rw [hnil, List.append_nil]
    exact ⟨h.pairwise, hkept⟩
  · have hone : (d.recorded [s]).filterMap Event.published? = [t] := by
      rw [recorded_of_announced hstep]
      rfl
    rw [hone]
    constructor
    · rw [List.pairwise_append]
      refine ⟨h.pairwise, List.pairwise_singleton _ t, ?_⟩
      intro u hu v hv hkey hne
      obtain rfl := List.mem_singleton.mp hv
      obtain ⟨old, hold, _⟩ := h.kept u hu hne
      apply hnews.hosts_ne_nil hpolicy
      exact Store.contains_iff.mpr ⟨old, hkey ▸ hold⟩
    · intro u hu hne
      rcases List.mem_append.mp hu with hu | hu
      · exact hkept u hu hne
      · obtain rfl := List.mem_singleton.mp hu
        refine ⟨u, ?_, hne⟩
        rw [hstep]
        exact Store.get?_commit_eq_some_iff.mpr (Or.inl ⟨rfl, rfl⟩)

theorem Candid.keepsHosts_run (hpolicy : d.policy.applyEmpty = false) {steps : List Step}
    (hc : d.Candid steps) :
    KeepsHosts ((d.recorded steps).filterMap Event.published?) (d.run steps).store := by
  let P : Directory → Prop := fun e => e.policy.applyEmpty = false ∧
    ∃ more, e.events = d.events ++ more ∧
      KeepsHosts (more.filterMap Event.published?) e.store
  have hstart : P d :=
    ⟨hpolicy, [], (List.append_nil _).symm, ⟨List.Pairwise.nil, by simp⟩⟩
  have hstep : ∀ e s, P e → ¬ s.ReplacesSilently e → P (e.step s) := by
    rintro e s ⟨hp, more, hmore, hkeeps⟩ hs
    refine ⟨by rw [step_policy, hp], more ++ e.recorded [s], ?_, ?_⟩
    · rw [← List.append_assoc, ← hmore]
      exact events_run e [s]
    · rw [List.filterMap_append]
      exact hkeeps.step hp hs
  obtain ⟨_, more, hmore, hkeeps⟩ := hc.invariant hstart hstep
  rw [recorded_eq hmore]
  exact hkeeps

/-- Where documents without hosts are not applied, none is written or published for a service
known just before, in any run from any state. In a run that replaces nothing silently, moreover,
a service that has hosts always keeps some, and once a snapshot with hosts is published for a key
none without hosts is. -/
theorem known_hosts_kept (d : Directory) (hpolicy : d.policy.applyEmpty = false)
    (history : List Operation) :
    (∀ steps s, steps ++ [s] <+: d.trace history →
        ∀ event ∈ (d.run steps).recorded [s], ∀ t, event.announced? = some t → t.hosts = [] →
          (d.run steps).store.get? t.key = none) ∧
      ((∀ operation ∈ history, operation.replacesSilently = false) →
        (∀ steps later, steps ++ later <+: d.trace history → ∀ key,
            (d.run steps).store.HasHosts key → (d.run (steps ++ later)).store.HasHosts key) ∧
          ∀ steps, steps <+: d.trace history →
            ((d.recorded steps).filterMap Event.published?).Pairwise
              fun s t => s.key = t.key → s.hosts ≠ [] → t.hosts ≠ []) := by
  have hpolicies : ∀ steps, (d.run steps).policy.applyEmpty = false := by
    intro steps
    rw [run_policy, hpolicy]
  refine ⟨?_, fun hh => ⟨?_, ?_⟩⟩
  · intro steps s _ event he t ht hempty
    exact get?_eq_none_of_announced? (hpolicies steps) s he ht hempty
  · intro steps later hp key hhosts
    have hcandid := candid_append.mp ((candid_trace d history hh).of_isPrefix hp)
    rw [run_append]
    exact hcandid.2.hasHosts_run (hpolicies steps) hhosts
  · intro steps hp
    have hcandid := (candid_trace d history hh).of_isPrefix hp
    exact (hcandid.keepsHosts_run hpolicy).pairwise

/-- A document with a host, and then a push of the same service without hosts. -/
def emptiedHistory : List Operation :=
  [.receive ⟨"[\"a\",\"\",\"\",1000,[[\"\",\"10.0.0.1\",80]]]", { clock := 1 }⟩,
    .ingest (.service "[\"a\"]") { clock := 2 }]

theorem emptiedHistory_hosts_kept :
    ({} : Directory).policy.applyEmpty = false ∧
      (∀ operation ∈ emptiedHistory, operation.replacesSilently = false) ∧
      (∀ steps s, steps ++ [s] <+: ({} : Directory).trace emptiedHistory →
        ∀ event ∈ (({} : Directory).run steps).recorded [s], ∀ t, event.announced? = some t →
          t.hosts = [] → (({} : Directory).run steps).store.get? t.key = none) ∧
      (∀ steps later, steps ++ later <+: ({} : Directory).trace emptiedHistory → ∀ key,
        (({} : Directory).run steps).store.HasHosts key →
          (({} : Directory).run (steps ++ later)).store.HasHosts key) ∧
      ((({} : Directory).after emptiedHistory).store.get? (ServiceKey.of "a" "")).map
        (·.hosts.length) = some 1 := by
  have hh : ∀ operation ∈ emptiedHistory, operation.replacesSilently = false := by
    intro operation ho
    simp only [emptiedHistory, List.mem_cons, List.not_mem_nil, or_false] at ho
    rcases ho with rfl | rfl <;> rfl
  have hkept := known_hosts_kept {} rfl emptiedHistory
  exact ⟨rfl, hh, hkept.1, (hkept.2 hh).1, by decide +kernel⟩

end Directory

end ServiceDirectory
