import ServiceDirectory.Directory.Effects
import ServiceDirectory.Proofs.ArchiveEntries
import ServiceDirectory.Proofs.Runs

/-!
# Restarting

A directory that is opened on the archive of another one has, for every service
it knows, the hosts that the other one has, in some order; services it does not
know have no hosts there. The disk is behind the store only where a snapshot
came with the hosts already known, and where a placeholder was put.
-/

namespace ServiceDirectory

/-- What an event writes to disk, and whether that succeeds. -/
def Event.written? : Event → Option (Service × Bool)
  | .wrote s succeeded _ => some (s, succeeded)
  | _ => none

/-- An event that leaves on disk what it should: a write succeeds, and the weights that are
written are read back. -/
def Event.IsDurable (event : Event) : Prop :=
  ∀ p ∈ event.written?, p.2 = true ∧ ∀ i ∈ p.1.hosts, i.weight.ReadsBack

/-- The archive after events, behind a worker that is running. -/
def Archive.following (archive : Archive) (events : List Event) : Archive :=
  (events.foldl Archive.Worker.follow { archive }).archive

/-- Only writes leave something on disk. -/
theorem Archive.following_filter (archive : Archive) {keep : Event → Bool}
    (hkeep : ∀ s succeeded seen, keep (.wrote s succeeded seen) = true) {events : List Event} :
    archive.following (events.filter keep) = archive.following events := by
  rw [following, following, List.foldl_filter]
  congr 2
  funext worker event
  cases event with
  | judged text clock verdict => exact ite_self _
  | asked query => exact ite_self _
  | published s sinkFailed seen => exact ite_self _
  | wrote s succeeded seen => rw [hkeep, if_pos rfl]

/-- A map on disk that a store can be restored from, but for the order of hosts and for services
without hosts. -/
structure Store.RestoredFrom (store : Store) (map : KeyMap ServiceKey Service) : Prop where
  held : ∀ key s, map.get? key = some s →
    ∃ t, store.get? key = some t ∧ t.hosts.Perm s.hosts
  hostless : ∀ key t, store.get? key = some t → map.get? key = none → t.hosts = []

namespace Store.RestoredFrom

variable {store : Store} {map : KeyMap ServiceKey Service}

/-- A placeholder for a service that is not known is no loss. -/
theorem place (h : store.RestoredFrom map) {name clusters : String}
    (hmiss : store.get? (ServiceKey.of name clusters) = none) :
    (store.set (ServiceKey.of name clusters)
      (Service.placeholder name clusters)).RestoredFrom map := by
  constructor
  · intro key s hs
    obtain ⟨t, ht, hperm⟩ := h.held key s hs
    have hkey : ServiceKey.of name clusters ≠ key := by
      rintro rfl
      rw [hmiss] at ht
      cases ht
    exact ⟨t, get?_set_eq_some_iff.mpr (Or.inr ⟨hkey, ht⟩), hperm⟩
  · intro key t ht hnone
    rcases get?_set_eq_some_iff.mp ht with ⟨_, rfl⟩ | ⟨_, ht⟩
    · rfl
    · exact h.hostless key t ht hnone

/-- A snapshot with the hosts already known need not be written. -/
theorem refresh (h : store.RestoredFrom map) {s old : Service}
    (hold : store.get? s.key = some old) (hsame : old.hosts.Perm s.hosts) (clock : Millis) :
    (store.commit s.key s clock).RestoredFrom map := by
  constructor
  · intro key u hu
    obtain ⟨t, ht, hperm⟩ := h.held key u hu
    by_cases hkey : s.key = key
    · subst hkey
      obtain rfl : old = t := Option.some.inj (hold.symm.trans ht)
      exact ⟨s, get?_commit_eq_some_iff.mpr (Or.inl ⟨rfl, rfl⟩), hsame.symm.trans hperm⟩
    · exact ⟨t, get?_commit_eq_some_iff.mpr (Or.inr ⟨hkey, ht⟩), hperm⟩
  · intro key t ht hnone
    rcases get?_commit_eq_some_iff.mp ht with ⟨rfl, rfl⟩ | ⟨_, ht⟩
    · rw [h.hostless _ old hold hnone] at hsame
      exact List.nil_perm.mp hsame
    · exact h.hostless key t ht hnone

/-- A snapshot that is also written is restored as it is. -/
theorem write (h : store.RestoredFrom map) (s : Service) (clock : Millis) :
    (store.commit s.key s clock).RestoredFrom (map.insert s.key s) := by
  constructor
  · intro key u hu
    rw [KeyMap.get?_insert] at hu
    split at hu
    · rename_i hkey
      obtain rfl := Option.some.inj hu
      exact ⟨s, get?_commit_eq_some_iff.mpr (Or.inl ⟨hkey, rfl⟩), List.Perm.refl _⟩
    · rename_i hkey
      obtain ⟨t, ht, hperm⟩ := h.held key u hu
      exact ⟨t, get?_commit_eq_some_iff.mpr (Or.inr ⟨hkey, ht⟩), hperm⟩
  · intro key t ht hnone
    rw [KeyMap.get?_insert] at hnone
    rcases get?_commit_eq_some_iff.mp ht with ⟨hkey, _⟩ | ⟨hkey, ht⟩
    · rw [if_pos hkey] at hnone
      cases hnone
    · rw [if_neg hkey] at hnone
      exact h.hostless key t ht hnone

end Store.RestoredFrom

namespace Directory

/-- A directory opened on an archive, with what can be read from it. -/
def opened (policy : Policy) (archive : Archive) : Directory :=
  start policy true archive.read.1.toOption

theorem opened_get? (policy : Policy) {archive : Archive} {map : KeyMap ServiceKey Service}
    (h : archive.Keeps map) (key : ServiceKey) :
    (opened policy archive).store.get? key = map.get? key := by
  rw [opened, start_get?, loadedFor, if_pos rfl, h.read]
  rfl

theorem opened_stamps (policy : Policy) (archive : Archive) :
    (opened policy archive).store.stamps = KeyMap.empty := start_stamps _ _ _

/-- The archive at the time of a state keeps a map that its store can be restored from. -/
def Recoverable (archive : Archive) (d : Directory) : Prop :=
  ∃ current map, d.events.foldl Archive.Worker.follow { archive } = { archive := current } ∧
    current.Keeps map ∧ d.store.RestoredFrom map

variable {archive : Archive} {d : Directory}

theorem recoverable_opened (policy : Policy) {map : KeyMap ServiceKey Service}
    (h : archive.Keeps map) : Recoverable archive (opened policy archive) := by
  have hget := fun key => opened_get? policy h key
  refine ⟨archive, map, ?_, h, ?_, ?_⟩
  · rw [opened, start_events]
    rfl
  · intro key s hs
    exact ⟨s, by rw [hget, hs], List.Perm.refl _⟩
  · intro key t ht hnone
    rw [hget, hnone] at ht
    cases ht

/-- What writes nothing leaves the archive as it is. -/
theorem Recoverable.quiet (h : Recoverable archive d) {e : Directory}
    (more : List Event) (hevents : e.events = d.events ++ more)
    (hquiet : ∀ worker, more.foldl Archive.Worker.follow worker = worker)
    (hstore : ∀ map, d.store.RestoredFrom map → e.store.RestoredFrom map) :
    Recoverable archive e := by
  obtain ⟨current, map, hcurrent, hkeeps, hrestored⟩ := h
  exact ⟨current, map, by rw [hevents, List.foldl_append, hcurrent, hquiet], hkeeps,
    hstore map hrestored⟩

theorem Recoverable.announced (h : Recoverable archive d) {a : Arrival} {s : Service}
    (hs : Service.parse? a.text = some s)
    (hdurable : ∀ event ∈ (d.announced a s).events, event.IsDurable) :
    Recoverable archive (d.announced a s) := by
  obtain ⟨current, map, hcurrent, hkeeps, hrestored⟩ := h
  obtain ⟨hok, hweights⟩ : (!a.conditions.writeFails) = true ∧ ∀ i ∈ s.hosts, i.weight.ReadsBack :=
    hdurable (.wrote s (!a.conditions.writeFails) (d.announced a s).store) (by simp) _ rfl
  have hdecode : Service.decode? s.print = some s :=
    Service.decode?_print fun i hi => ⟨Service.isFinite_of_parse? hs i hi, hweights i hi⟩
  refine ⟨(current.write s).2, map.insert s.key s, ?_, hkeeps.write_insert hdecode,
    hrestored.write s a.conditions.clock⟩
  rw [announced_events, List.foldl_append, hcurrent, hok]
  rfl

theorem Recoverable.step (h : Recoverable archive d) {s : Step} (hs : ¬ s.ReplacesSilently d)
    (hdurable : ∀ event ∈ (d.step s).events, event.IsDurable) :
    Recoverable archive (d.step s) := by
  cases s with
  | load readings => exact absurd trivial hs
  | ask query => exact h.quiet [.asked query] rfl (fun _ => rfl) fun _ h => h
  | place name clusters =>
      have hmiss := get?_eq_none_of_place hs
      apply h.quiet []
      · simp [Directory.step]
      · intro worker
        rfl
      · intro map hrestored
        exact hrestored.place hmiss
  | take a =>
      rw [Directory.step] at hdurable ⊢
      generalize hr : d.receive a = result at hdurable ⊢
      cases received hr with
      | rejected hs => exact h.quiet _ (judged_events _ _ _) (fun _ => rfl) fun _ h => h
      | ignored hs hold hpolicy hempty =>
          exact h.quiet _ (judged_events _ _ _) (fun _ => rfl) fun _ h => h
      | unchanged hs hold hkeep hsame =>
          apply h.quiet
          · exact refreshed_events d a _
          · intro worker
            rfl
          · intro map hrestored
            exact hrestored.refresh hold hsame a.conditions.clock
      | changed hs hnews => exact h.announced hs hdurable

theorem Candid.recoverable_run {steps : List Step} (hc : d.Candid steps)
    (h : Recoverable archive d) (hdurable : ∀ event ∈ (d.run steps).events, event.IsDurable) :
    Recoverable archive (d.run steps) := by
  have hrun := hc.invariant
    (P := fun e => (∀ event ∈ e.events, event.IsDurable) → Recoverable archive e)
    (fun _ => h) fun e s he hs hall =>
      (he fun event hevent => hall event ((events_isPrefix_step e s).mem hevent)).step hs hall
  exact hrun hdurable

/-- A directory opened on the archive of another one, in any state of the other's run, has for
every service it knows the hosts that the other has, has no stamps, and misses only services
without hosts. The run is one that replaces no snapshot silently, whose writes succeed, and whose
weights are read back; it starts from an archive to which only snapshots were written. -/
theorem restart_restores_hosts (policy restarted : Policy) (services : List Service)
    (history : List Operation) (hh : ∀ operation ∈ history, operation.replacesSilently = false)
    (steps : List Step)
    (hp : steps <+: (opened policy (Archive.filled services)).trace history)
    (before after : Directory)
    (hbefore : before = (opened policy (Archive.filled services)).run steps)
    (hdurable : ∀ event ∈ before.events, event.IsDurable)
    (hafter : after = opened restarted ((Archive.filled services).following before.events)) :
    (∀ key s, after.store.get? key = some s →
        ∃ t, before.store.get? key = some t ∧ t.hosts.Perm s.hosts) ∧
      (∀ key t, before.store.get? key = some t → after.store.get? key = none → t.hosts = []) ∧
      ∀ key, after.store.stamps.get? key = none := by
  subst hbefore hafter
  obtain ⟨map, hmap⟩ := Archive.exists_keeps_filled services
  have hcandid := (candid_trace _ history hh).of_isPrefix hp
  obtain ⟨current, map', hcurrent, hkeeps, hrestored⟩ :=
    hcandid.recoverable_run (recoverable_opened policy hmap) hdurable
  rw [Archive.following, hcurrent]
  refine ⟨?_, ?_, ?_⟩
  · intro key s hs
    rw [opened_get? restarted hkeeps] at hs
    exact hrestored.held key s hs
  · intro key t ht hnone
    rw [opened_get? restarted hkeeps] at hnone
    exact hrestored.hostless key t ht hnone
  · intro key
    rw [opened_stamps]
    rfl

/-- A service with two hosts, and then a lookup of one that the backend does not know. -/
def unansweredHistory : List Operation :=
  [.receive
      ⟨"[\"a\",\"\",\"\",1000,[[\"\",\"10.0.0.1\",80],[\"\",\"10.0.0.2\",80]]]", { clock := 1 }⟩,
    .lookup (fun _ => { reply := none, conditions := fun _ => { clock := 2 } }) "b" ""]

theorem unansweredHistory_restart_restores_hosts :
    (∀ operation ∈ unansweredHistory, operation.replacesSilently = false) ∧
      ∃ before after : Directory,
        before = (opened {} (Archive.filled [])).run
          ((opened {} (Archive.filled [])).trace unansweredHistory) ∧
        (∀ event ∈ before.events, event.IsDurable) ∧
        after = opened {} ((Archive.filled []).following before.events) ∧
        (∀ key s, after.store.get? key = some s →
          ∃ t, before.store.get? key = some t ∧ t.hosts.Perm s.hosts) ∧
        (∀ key t, before.store.get? key = some t → after.store.get? key = none → t.hosts = []) ∧
        ∀ key, after.store.stamps.get? key = none := by
  have hh : ∀ operation ∈ unansweredHistory, operation.replacesSilently = false := by
    intro operation ho
    simp only [unansweredHistory, List.mem_cons, List.not_mem_nil, or_false] at ho
    rcases ho with rfl | rfl <;> rfl
  let run := (opened {} (Archive.filled [])).run
    ((opened {} (Archive.filled [])).trace unansweredHistory)
  have hwritten : run.events.filterMap Event.written? =
      [({ name := "a", cacheMillis := 1000,
          hosts := [{ ip := "10.0.0.1", port := 80 }, { ip := "10.0.0.2", port := 80 }] },
        true)] := by
    decide +kernel
  have hone : Binary64.one.ReadsBack := by decide +kernel
  have hdurable : ∀ event ∈ run.events, event.IsDurable := by
    intro event he p hp
    have hmem : p ∈ run.events.filterMap Event.written? := List.mem_filterMap.mpr ⟨event, he, hp⟩
    rw [hwritten, List.mem_singleton] at hmem
    subst hmem
    refine ⟨rfl, fun i hi => ?_⟩
    simp only [List.mem_cons, List.not_mem_nil, or_false] at hi
    rcases hi with rfl | rfl <;> exact hone
  exact ⟨hh, _, _, rfl, hdurable, rfl,
    restart_restores_hosts {} {} [] unansweredHistory hh _ List.prefix_rfl _ _ rfl hdurable rfl⟩

end Directory

end ServiceDirectory
