import Mathlib.Data.List.Chain
import ServiceDirectory.Proofs.Runs

/-!
# What subscribers know

A subscriber of a service knows what was loaded for it when the directory was
opened and every snapshot published since. The invariant is that the store never
gets away from the last of these by more than the order of the hosts.
-/

namespace ServiceDirectory

/-- The snapshot that an event hands to the sink, if it is one for the key. -/
def Event.publishedFor (key : ServiceKey) : Event → Option Service
  | .published s _ _ => if s.key = key then some s else none
  | _ => none

namespace Directory

/-- The snapshots of a key that were loaded or published, oldest first. -/
def seen (loaded : ServiceKey → Option Service) (d : Directory) (key : ServiceKey) :
    List Service :=
  (loaded key).toList ++ d.events.filterMap (Event.publishedFor key)

/-- The hosts of the last snapshot that was loaded or published; none without any. -/
def view (loaded : ServiceKey → Option Service) (d : Directory) (key : ServiceKey) :
    List Instance :=
  ((d.seen loaded key).getLast?.map (·.hosts)).getD []

/-- Subscribers know the hosts of every snapshot in the store, and are told nothing twice. -/
structure InView (loaded : ServiceKey → Option Service) (d : Directory) : Prop where
  perm : ∀ key s, d.store.get? key = some s → s.hosts.Perm (d.view loaded key)
  held : ∀ key, d.seen loaded key ≠ [] → d.store.contains key = true
  news : ∀ key, (d.seen loaded key).IsChain fun a b => ¬ a.hosts.Perm b.hosts

section Seen

variable {loaded : ServiceKey → Option Service} {d e : Directory} {key : ServiceKey}

theorem view_congr (h : e.seen loaded key = d.seen loaded key) :
    e.view loaded key = d.view loaded key := by
  rw [view, view, h]

theorem view_of_getLast? {s : Service} (h : (d.seen loaded key).getLast? = some s) :
    d.view loaded key = s.hosts := by
  rw [view, h]
  rfl

theorem InView.seen_eq_nil (h : d.InView loaded) (hmiss : d.store.get? key = none) :
    d.seen loaded key = [] := by
  by_contra hne
  obtain ⟨s, hs⟩ := Store.contains_iff.mp (h.held key hne)
  rw [hmiss] at hs
  cases hs

/-- Nothing new was published, and each snapshot in the store is one subscribers know of. -/
theorem InView.of_seen_eq (h : d.InView loaded)
    (hseen : ∀ key, e.seen loaded key = d.seen loaded key)
    (hperm : ∀ key s, e.store.get? key = some s → s.hosts.Perm (d.view loaded key))
    (hheld : ∀ key, d.store.contains key = true → e.store.contains key = true) :
    e.InView loaded where
  perm key s hs := by
    rw [view_congr (hseen key)]
    exact hperm key s hs
  held key hne := hheld key (h.held key (hseen key ▸ hne))
  news key := hseen key ▸ h.news key

end Seen

variable {loaded : ServiceKey → Option Service} {d : Directory}

theorem inView_start (policy : Policy) (loadFromDisk : Bool)
    (readings : Option (KeyMap ServiceKey Service)) :
    (start policy loadFromDisk readings).InView (loadedFor loadFromDisk readings) := by
  have hseen : ∀ key, (start policy loadFromDisk readings).seen
      (loadedFor loadFromDisk readings) key = (loadedFor loadFromDisk readings key).toList := by
    intro key
    rw [seen, start_events, List.filterMap_nil, List.append_nil]
  constructor
  · intro key s hs
    rw [start_get?] at hs
    rw [view, hseen, hs]
    exact List.Perm.refl _
  · intro key hne
    rw [hseen] at hne
    apply Store.contains_iff.mpr
    rw [start_get?]
    cases h : loadedFor loadFromDisk readings key with
    | none => simp [h] at hne
    | some s => exact ⟨s, rfl⟩
  · intro key
    rw [hseen]
    cases loadedFor loadFromDisk readings key <;> simp

theorem InView.place (h : d.InView loaded) {name clusters : String}
    (hmiss : d.store.get? (ServiceKey.of name clusters) = none) :
    (d.putPlaceholder name clusters).InView loaded := by
  apply h.of_seen_eq
  · intro key
    simp [seen]
  · intro key s hs
    rcases Store.get?_set_eq_some_iff.mp hs with ⟨rfl, rfl⟩ | ⟨_, hs⟩
    · rw [view, h.seen_eq_nil hmiss]
      exact List.Perm.refl _
    · exact h.perm key s hs
  · intro key hkey
    rw [putPlaceholder_store, Store.contains_eq, Store.get?_set]
    split
    · rfl
    · exact hkey

theorem InView.receive (h : d.InView loaded) (a : Arrival) : (d.receive a).2.InView loaded := by
  have hjudged : ∀ verdict key, (d.judged a verdict).seen loaded key = d.seen loaded key := by
    intro verdict key
    simp [seen, Event.publishedFor]
  generalize hr : d.receive a = result
  cases received hr with
  | rejected hs => exact h.of_seen_eq (hjudged _) h.perm fun _ => id
  | ignored hs hold hpolicy hempty => exact h.of_seen_eq (hjudged _) h.perm fun _ => id
  | @unchanged s old hs hold hkeep hsame =>
      apply h.of_seen_eq
      · exact hjudged .unchanged
      · intro key t ht
        rcases Store.get?_commit_eq_some_iff.mp ht with ⟨rfl, rfl⟩ | ⟨_, ht⟩
        · exact hsame.symm.trans (h.perm _ _ hold)
        · exact h.perm key t ht
      · intro key
        exact Store.contains_commit d.store s _
  | @changed s hs hnews =>
      have hother : ∀ key, s.key ≠ key →
          (d.announced a s).seen loaded key = d.seen loaded key := by
        intro key hkey
        simp [seen, Event.publishedFor, hkey]
      have hown : (d.announced a s).seen loaded s.key = d.seen loaded s.key ++ [s] := by
        simp [seen, Event.publishedFor, List.filterMap_cons]
      constructor
      · intro key t ht
        rcases Store.get?_commit_eq_some_iff.mp ht with ⟨rfl, rfl⟩ | ⟨hkey, ht⟩
        · rw [view_of_getLast? (by rw [hown, List.getLast?_concat])]
        · rw [view_congr (hother key hkey)]
          exact h.perm key t ht
      · intro key hne
        by_cases hkey : s.key = key
        · rw [announced_store, Store.contains_eq, Store.get?_commit, if_pos hkey]
          rfl
        · apply Store.contains_commit
          exact h.held key (hother key hkey ▸ hne)
      · intro key
        by_cases hkey : s.key = key
        · subst hkey
          rw [hown]
          apply (h.news s.key).append (List.isChain_singleton s)
          intro last hlast t ht
          obtain rfl : s = t := by simpa using ht
          -- what the store holds has the hosts last seen, and they are not those of `s`
          have hseen : d.seen loaded s.key ≠ [] := fun hnil => by simp [hnil] at hlast
          obtain ⟨old, hold⟩ := Store.contains_iff.mp (h.held s.key hseen)
          have hperm := h.perm s.key old hold
          rw [view_of_getLast? hlast] at hperm
          exact fun hsame => (hnews old hold).2 (hperm.trans hsame)
        · rw [hother key hkey]
          exact h.news key

/-- No step that replaces nothing silently takes the store away from what subscribers know. -/
theorem InView.step (h : d.InView loaded) (s : Step) (hs : ¬ s.ReplacesSilently d) :
    (d.step s).InView loaded := by
  cases s with
  | ask query =>
      apply h.of_seen_eq
      · intro key
        simp [Directory.step, seen, Event.publishedFor]
      · exact h.perm
      · exact fun _ => id
  | place name clusters =>
      apply h.place
      exact get?_eq_none_of_place hs
  | take arrival => exact h.receive arrival
  | load readings => exact absurd trivial hs

/-- In every state of a run that replaces nothing silently, at which no document is halfway taken
in: the hosts in the store are, up to their order, those last loaded or published; what was
loaded or published is in the store; and no publication repeats the hosts of the one before. -/
theorem store_perm_view (policy : Policy) (loadFromDisk : Bool)
    (readings : Option (KeyMap ServiceKey Service)) (history : List Operation)
    (hh : ∀ operation ∈ history, operation.replacesSilently = false) (steps : List Step)
    (hp : steps <+: (start policy loadFromDisk readings).trace history) :
    let loaded := loadedFor loadFromDisk readings
    let d := (start policy loadFromDisk readings).run steps
    (∀ key s, d.store.get? key = some s → s.hosts.Perm (d.view loaded key)) ∧
      (∀ key, d.seen loaded key ≠ [] → d.store.contains key = true) ∧
      ∀ key, (d.seen loaded key).IsChain fun a b => ¬ a.hosts.Perm b.hosts := by
  intro loaded d
  have hcandid := (candid_trace _ history hh).of_isPrefix hp
  have hview : d.InView loaded :=
    hcandid.invariant (inView_start policy loadFromDisk readings) fun _ s h hs => h.step s hs
  exact ⟨hview.perm, hview.held, hview.news⟩

/-- A lookup that finds nothing, during whose query two pushes of the service arrive: the first
meets a failing disk and a failing sink, the second has its hosts in another order. -/
def crossedLookup : Operation :=
  .lookup (fun _ =>
    { meanwhile :=
        [⟨"[\"a\",\"\",\"\",1000,[[\"\",\"10.0.0.1\",80],[\"\",\"10.0.0.2\",80]]]",
          { clock := 1, writeFails := true, sinkFails := true }⟩,
        ⟨"[\"a\",\"\",\"\",1000,[[\"\",\"10.0.0.2\",80],[\"\",\"10.0.0.1\",80]]]",
          { clock := 2 }⟩],
      reply := none,
      conditions := fun _ => { clock := 3 } }) "a" ""

/-- The lookup up to the moment after its first push. -/
def crossedLookupSteps : List Step := ((start {} false none).trace [crossedLookup]).take 3

theorem crossedLookup_view :
    (∀ operation ∈ [crossedLookup], operation.replacesSilently = false) ∧
      crossedLookupSteps <+: (start {} false none).trace [crossedLookup] ∧
      (let loaded := loadedFor false none
        let d := (start {} false none).run crossedLookupSteps
        (∀ key s, d.store.get? key = some s → s.hosts.Perm (d.view loaded key)) ∧
          (∀ key, d.seen loaded key ≠ [] → d.store.contains key = true) ∧
          ∀ key, (d.seen loaded key).IsChain fun a b => ¬ a.hosts.Perm b.hosts) ∧
      (((start {} false none).run crossedLookupSteps).view (fun _ => none)
        (ServiceKey.of "a" "")).length = 2 := by
  have hh : ∀ operation ∈ [crossedLookup], operation.replacesSilently = false := by
    intro operation ho
    rw [List.mem_singleton.mp ho]
    rfl
  have hp : crossedLookupSteps <+: (start {} false none).trace [crossedLookup] :=
    List.take_prefix 3 _
  exact ⟨hh, hp, store_perm_view {} false none [crossedLookup] hh crossedLookupSteps hp,
    by decide +kernel⟩

end Directory

end ServiceDirectory
