import ServiceDirectory.Directory.Operation
import ServiceDirectory.Proofs.HostOrder
import ServiceDirectory.Proofs.KeyMaps

/-!
# Receiving documents

What receiving a document can come to is said once, as a relation with one case
for each verdict: the reason for it, and the directory afterwards. Everything
that is kept by receiving is proved from these four cases.
-/

namespace ServiceDirectory

namespace Store

theorem contains_eq (store : Store) (key : ServiceKey) :
    store.contains key = (store.get? key).isSome := rfl

theorem contains_iff {store : Store} {key : ServiceKey} :
    store.contains key = true ↔ ∃ s, store.get? key = some s := by
  rw [contains_eq, Option.isSome_iff_exists]

theorem contains_eq_false_iff {store : Store} {key : ServiceKey} :
    store.contains key = false ↔ store.get? key = none := by
  rw [contains_eq, Option.isSome_eq_false_iff, Option.isNone_iff_eq_none]

/-- What is found after setting a key was set, or was there under another key. -/
theorem get?_set_eq_some_iff {store : Store} {key other : ServiceKey} {s t : Service} :
    (store.set key s).get? other = some t ↔
      key = other ∧ s = t ∨ key ≠ other ∧ store.get? other = some t := by
  rw [get?_set]
  by_cases h : key = other
  · simp [h]
  · simp [h]

theorem get?_commit_eq_some_iff {store : Store} {key other : ServiceKey} {s t : Service}
    {time : Millis} :
    (store.commit key s time).get? other = some t ↔
      key = other ∧ s = t ∨ key ≠ other ∧ store.get? other = some t := by
  rw [commit, get?_stamp, get?_set_eq_some_iff]

theorem contains_commit (store : Store) (s : Service) (clock : Millis) {key : ServiceKey}
    (h : store.contains key = true) : (store.commit s.key s clock).contains key = true := by
  rw [contains_eq, get?_commit]
  split
  · rfl
  · exact h

end Store

namespace Directory

/-! ## Small effects -/

section Effects

variable (d : Directory) (event : Event) (service : Service) (clock : Millis) (c : Conditions)
  (name clusters : String)

@[simp] theorem record_store : (d.record event).store = d.store := rfl

@[simp] theorem record_policy : (d.record event).policy = d.policy := rfl

@[simp] theorem record_events : (d.record event).events = d.events ++ [event] := rfl

@[simp] theorem commit_store :
    (d.commit service clock).store = d.store.commit service.key service clock := rfl

@[simp] theorem commit_policy : (d.commit service clock).policy = d.policy := rfl

@[simp] theorem commit_events : (d.commit service clock).events = d.events := rfl

@[simp] theorem announce_store : (d.announce service c).store = d.store := rfl

@[simp] theorem announce_policy : (d.announce service c).policy = d.policy := rfl

@[simp] theorem announce_events :
    (d.announce service c).events = d.events ++
      [.wrote service (!c.writeFails) d.store, .published service c.sinkFails d.store] := by
  simp [announce]

@[simp] theorem putPlaceholder_store :
    (d.putPlaceholder name clusters).store =
      d.store.set (ServiceKey.of name clusters) (Service.placeholder name clusters) := rfl

@[simp] theorem putPlaceholder_policy : (d.putPlaceholder name clusters).policy = d.policy := rfl

@[simp] theorem putPlaceholder_events : (d.putPlaceholder name clusters).events = d.events := rfl

end Effects

@[simp] theorem load_policy (d : Directory) (readings : Option (KeyMap ServiceKey Service)) :
    (d.load readings).policy = d.policy := by
  cases readings <;> rfl

@[simp] theorem load_events (d : Directory) (readings : Option (KeyMap ServiceKey Service)) :
    (d.load readings).events = d.events := by
  cases readings <;> rfl

/-! ## Loading -/

/-- Setting entries one after another puts them into the snapshots and stamps nothing. -/
theorem foldl_set (entries : List (ServiceKey × Service)) (store : Store) :
    entries.foldl (fun store e => store.set e.1 e.2) store =
      { store with
        snapshots := entries.foldl (fun map e => map.insert e.1 e.2) store.snapshots } := by
  induction entries generalizing store with
  | nil => rfl
  | cons e rest ih => exact ih _

/-- What a new directory finds on disk for a key. -/
def loadedFor (loadFromDisk : Bool) (readings : Option (KeyMap ServiceKey Service))
    (key : ServiceKey) : Option Service :=
  if loadFromDisk then readings.bind (·.get? key) else none

section Start

variable (policy : Policy) (loadFromDisk : Bool)
  (readings : Option (KeyMap ServiceKey Service))

theorem start_get? (key : ServiceKey) :
    (start policy loadFromDisk readings).store.get? key =
      loadedFor loadFromDisk readings key := by
  cases loadFromDisk with
  | false => rfl
  | true =>
      cases readings with
      | none => rfl
      | some map =>
          simp only [start, load, if_true, foldl_set, Store.get?,
            KeyMap.get?_foldl_insert map.distinct_entries]
          exact Option.or_none

theorem start_stamps :
    (start policy loadFromDisk readings).store.stamps = KeyMap.empty := by
  cases loadFromDisk with
  | false => rfl
  | true =>
      cases readings with
      | none => rfl
      | some map => simp only [start, load, if_true, foldl_set]

@[simp] theorem start_events : (start policy loadFromDisk readings).events = [] := by
  cases loadFromDisk <;> simp [start]

@[simp] theorem start_policy : (start policy loadFromDisk readings).policy = policy := by
  cases loadFromDisk <;> simp [start]

end Start

/-! ## The verdicts -/

/-- A document was found to be this; nothing else has happened yet. -/
def judged (d : Directory) (a : Arrival) (verdict : Verdict) : Directory :=
  d.record (.judged a.text a.conditions.clock verdict)

@[simp] theorem judged_store (d : Directory) (a : Arrival) (verdict : Verdict) :
    (d.judged a verdict).store = d.store := rfl

@[simp] theorem judged_policy (d : Directory) (a : Arrival) (verdict : Verdict) :
    (d.judged a verdict).policy = d.policy := rfl

@[simp] theorem judged_events (d : Directory) (a : Arrival) (verdict : Verdict) :
    (d.judged a verdict).events =
      d.events ++ [.judged a.text a.conditions.clock verdict] := rfl

/-- A document was found to have the hosts already known: committed, and told nobody. -/
def refreshed (d : Directory) (a : Arrival) (s : Service) : Directory :=
  (d.judged a .unchanged).commit s a.conditions.clock

@[simp] theorem refreshed_store (d : Directory) (a : Arrival) (s : Service) :
    (d.refreshed a s).store = d.store.commit s.key s a.conditions.clock := rfl

@[simp] theorem refreshed_policy (d : Directory) (a : Arrival) (s : Service) :
    (d.refreshed a s).policy = d.policy := rfl

@[simp] theorem refreshed_events (d : Directory) (a : Arrival) (s : Service) :
    (d.refreshed a s).events =
      d.events ++ [.judged a.text a.conditions.clock .unchanged] := rfl

/-- A document was found to be news: committed, written to disk and published. -/
def announced (d : Directory) (a : Arrival) (s : Service) : Directory :=
  ((d.judged a .changed).commit s a.conditions.clock).announce s a.conditions

@[simp] theorem announced_store (d : Directory) (a : Arrival) (s : Service) :
    (d.announced a s).store = d.store.commit s.key s a.conditions.clock := rfl

@[simp] theorem announced_policy (d : Directory) (a : Arrival) (s : Service) :
    (d.announced a s).policy = d.policy := rfl

@[simp] theorem announced_events (d : Directory) (a : Arrival) (s : Service) :
    (d.announced a s).events = d.events ++
      [.judged a.text a.conditions.clock .changed,
        .wrote s (!a.conditions.writeFails) (d.announced a s).store,
        .published s a.conditions.sinkFails (d.announced a s).store] := by
  simp [announced]

/-- A document is news: it may replace what the store holds, and its hosts are others. -/
def IsNews (d : Directory) (s : Service) : Prop :=
  ∀ old, d.store.get? s.key = some old →
    (d.policy.applyEmpty = true ∨ s.hosts ≠ []) ∧ ¬ old.hosts.Perm s.hosts

/-- What receiving a document comes to, with the reason for each verdict. -/
inductive Received (d : Directory) (a : Arrival) : Verdict × Directory → Prop
  | rejected (hs : Service.parse? a.text = none) :
      Received d a (.rejected, d.judged a .rejected)
  | ignored {s old : Service} (hs : Service.parse? a.text = some s)
      (hold : d.store.get? s.key = some old) (hpolicy : d.policy.applyEmpty = false)
      (hempty : s.hosts = []) :
      Received d a (.ignoredEmpty, d.judged a .ignoredEmpty)
  | unchanged {s old : Service} (hs : Service.parse? a.text = some s)
      (hold : d.store.get? s.key = some old)
      (hkeep : d.policy.applyEmpty = true ∨ s.hosts ≠ []) (hsame : old.hosts.Perm s.hosts) :
      Received d a (.unchanged, d.refreshed a s)
  | changed {s : Service} (hs : Service.parse? a.text = some s) (hnews : d.IsNews s) :
      Received d a (.changed, d.announced a s)

/-- What is no service document is rejected, and nothing else comes of it. -/
theorem receive_of_parse?_eq_none (d : Directory) {a : Arrival}
    (h : Service.parse? a.text = none) : d.receive a = (.rejected, d.judged a .rejected) := by
  rw [receive, h]
  rfl

theorem received {d : Directory} {a : Arrival} {result : Verdict × Directory}
    (h : d.receive a = result) : Received d a result := by
  subst h
  cases hs : Service.parse? a.text with
  | none =>
      rw [receive_of_parse?_eq_none d hs]
      exact .rejected hs
  | some s =>
      cases hold : d.store.get? s.key with
      | none =>
          simp only [receive, judge, hs, hold]
          exact .changed hs fun old h => absurd (hold ▸ h) (by simp)
      | some old =>
          by_cases hempty : d.policy.applyEmpty = false ∧ s.hosts = []
          · simp only [receive, judge, hs, hold, hempty]
            exact .ignored hs hold hempty.1 hempty.2
          · have hkeep : d.policy.applyEmpty = true ∨ s.hosts ≠ [] := by
              rcases Bool.eq_false_or_eq_true d.policy.applyEmpty with h | h
              · exact Or.inl h
              · exact Or.inr fun he => hempty ⟨h, he⟩
            have hguard : (!d.policy.applyEmpty && s.hosts.isEmpty) = false := by
              rcases hkeep with h | h <;> simp [h]
            cases hsame : Instance.sameHosts old.hosts s.hosts with
            | true =>
                simp only [receive, judge, hs, hold, hguard, hsame]
                exact .unchanged hs hold hkeep (Instance.sameHosts_iff_perm.mp hsame)
            | false =>
                simp only [receive, judge, hs, hold, hguard, hsame]
                refine .changed hs fun old' h => ?_
                obtain rfl : old = old' := Option.some.inj (hold ▸ h)
                exact ⟨hkeep, Instance.sameHosts_eq_false_iff.mp hsame⟩

@[simp] theorem receive_policy (d : Directory) (a : Arrival) :
    (d.receive a).2.policy = d.policy := by
  generalize h : d.receive a = result
  cases received h <;> rfl

end Directory

end ServiceDirectory
