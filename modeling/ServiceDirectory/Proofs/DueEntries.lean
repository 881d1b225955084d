import ServiceDirectory.Proofs.Coherence
import ServiceDirectory.Proofs.Passes
import ServiceDirectory.Proofs.Stamps

/-!
# When entries are due

An entry is sent off for a refresh when the time that its snapshot names has passed
since its stamp, where an entry without a stamp counts from zero.

A pass finds an entry under a key, its refresh asks with the name and the clusters
of the snapshot, and the document of the reply is stored under a key of its own.
For a document of the same service these keys are one and the same. So the entry
that was refreshed is the one that was found, it is the only one that changes, and
for later passes its time begins when the document was taken in. What was loaded
from disk is due in the first pass, unless it names a time as long as the clock.
-/

namespace ServiceDirectory

namespace Directory

/-- What the backend answers to the refresh of a snapshot. -/
def answerFor (d : Directory) (backend : Backend) (s : Service) : Answer :=
  backend (d.singleQuery s.name s.clusters)

/-- The directory when the reply to the refresh of a snapshot has come: since the query was asked,
other operations have made steps, and documents have arrived. -/
def replied (d : Directory) (backend : Backend) (s : Service) (between : List Step) : Directory :=
  (d.run (.ask (d.singleQuery s.name s.clusters) :: between)).receiveAll
    (d.answerFor backend s).meanwhile

/-- The directory after the refresh of a snapshot, with steps of other operations in between. -/
def refreshing (d : Directory) (backend : Backend) (s : Service) (between : List Step) :
    Directory :=
  (d.run (.ask (d.singleQuery s.name s.clusters) :: between)).settleSingle
    (d.answerFor backend s)

/-- Where no other operation comes in between it is a refresh as it stands. -/
theorem refreshing_nil (d : Directory) (backend : Backend) (s : Service) :
    d.refreshing backend s [] = d.refresh backend s.name s.clusters := rfl

/-- A document is taken over as a snapshot, with other hosts or with the same ones. -/
def Accepts (d : Directory) (a : Arrival) (s : Service) : Prop :=
  Service.parse? a.text = some s ∧ ((d.receive a).1 = .changed ∨ (d.receive a).1 = .unchanged)

variable {d : Directory}

theorem Accepts.store {a : Arrival} {s : Service} (h : d.Accepts a s) :
    (d.receive a).2.store = d.store.commit s.key s a.conditions.clock := by
  obtain ⟨hs, hverdict⟩ := h
  generalize hr : d.receive a = result at hverdict ⊢
  cases received hr with
  | rejected hnone => rcases hverdict with h | h <;> cases h
  | ignored hs' hold hpolicy hempty => rcases hverdict with h | h <;> cases h
  | unchanged hs' hold hkeep hsame =>
      obtain rfl := Option.some.inj (hs.symm.trans hs')
      rfl
  | changed hs' hnews =>
      obtain rfl := Option.some.inj (hs.symm.trans hs')
      rfl

/-- A reply that is a service document is taken in after all that came before it. -/
theorem settleSingle_of_parse? {answer : Answer} {text : String} {s : Service}
    (hreply : answer.reply = some text) (hs : Service.parse? text = some s) :
    d.settleSingle answer =
      ((d.receiveAll answer.meanwhile).receive ⟨text, answer.conditions 0⟩).2 := by
  have hblank : Text.allBlank text = false := by
    cases h : Text.allBlank text with
    | false => rfl
    | true =>
        rw [Service.parse?, if_pos h] at hs
        cases hs
  have hsingle : answer.single = [⟨text, answer.conditions 0⟩] := by
    rw [Answer.single, hreply, Option.filter_some, hblank]
    rfl
  rw [settleSingle_eq, receiveAll_append, hsingle]
  rfl

/-- A refresh takes over the document of its reply as it finds the store by then. -/
theorem store_refreshing {backend : Backend} {s t : Service} {between : List Step}
    {reply : Arrival} (hreply : (d.answerFor backend s).reply = some reply.text)
    (hconditions : (d.answerFor backend s).conditions 0 = reply.conditions)
    (haccepted : (d.replied backend s between).Accepts reply t) :
    (d.refreshing backend s between).store =
      (d.replied backend s between).store.commit t.key t reply.conditions.clock := by
  rw [refreshing, settleSingle_of_parse? hreply haccepted.1, hconditions]
  exact haccepted.store

/-- As long as no document is accepted for a key, its last refresh stays what it was. -/
theorem lastRefresh_run {steps : List Step} {key : ServiceKey}
    (h : d.accepted key steps = []) :
    (d.run steps).store.lastRefresh key = d.store.lastRefresh key := by
  rw [Store.lastRefresh, stamps_run, h]
  rfl

end Directory

namespace Refresh.Upkeep

open Directory (Accepts LoadsFrom start)

/-- A scheduler with one permit that has done nothing yet. -/
def idle (d : Directory) : Upkeep := { scheduler := .ofWidth 1, origin := d }

theorem idle_origin (d : Directory) : (idle d).origin = d := rfl

theorem idle_directory (d : Directory) : (idle d).directory = d := rfl

/-- As long as no document is accepted for its key, an entry is stale when the time that it names
has passed since the stamp that it had at first. -/
theorem isStale_iff {origin : Directory} {v : Visit}
    (h : origin.accepted v.key v.done = []) :
    v.isStale origin = true ↔
      v.service.cacheMillis.toNat <
        v.clock.toNat - (origin.store.lastRefresh v.key).toNat := by
  rw [Visit.isStale, Store.isStale_iff, Directory.lastRefresh_run h]

variable {first last u : Upkeep} {meanwhile : List Turn}

/-- What a pass that comes to its end does with the snapshot of a key. -/
theorem Completes.sent_iff (h : first.Completes meanwhile last) {key : ServiceKey} {s : Service}
    (hs : first.directory.store.get? key = some s) :
    ∃ w, (visitsSince first last).filter (·.key = key) = [w] ∧ w.service = s ∧
      (first.origin.accepted key w.done = [] →
        (w.sent = true ↔ s.cacheMillis.toNat <
          w.clock.toNat - (first.origin.store.lastRefresh key).toNat)) := by
  obtain ⟨w, honce, rfl, rfl, hsent⟩ := h.visit_once hs
  refine ⟨w, honce, rfl, fun hquiet => ?_⟩
  rw [hsent]
  exact isStale_iff hquiet

/-- A pass that is broken off does no more than that. -/
theorem Passing.due_of_sent (h : first.Passing meanwhile u) {w : Visit}
    (hw : w ∈ visitsSince first u) {s : Service}
    (hs : first.directory.store.get? w.key = some s) :
    w.service = s ∧ (first.origin.accepted w.key w.done = [] → w.sent = true →
      s.cacheMillis.toNat < w.clock.toNat - (first.origin.store.lastRefresh w.key).toNat) := by
  obtain rfl := h.service_eq hw hs
  exact ⟨rfl, fun hquiet hsent => (isStale_iff hquiet).mp (h.visits.2 w hw hsent)⟩

/-! ## Refreshed entries -/

/-- A pass finds each snapshot under the key that its own name and clusters give. -/
theorem key_of_visit {policy : Policy} {loadFromDisk : Bool} (services : List Service)
    {width : Nat} {turns : List Turn}
    (hrun : run?
      { scheduler := .ofWidth width,
        origin := start policy loadFromDisk (Archive.filled services).read.1.toOption } turns =
          some u)
    (hloads : (start policy loadFromDisk (Archive.filled services).read.1.toOption).LoadsFrom
      (Archive.filled services) u.done) {v : Visit} (hv : v ∈ u.visits) :
    v.service.key = v.key := by
  obtain ⟨htraced, horigin⟩ := (traced_ofWidth width _).run hrun
  obtain ⟨earlier, hp, hitem⟩ :=
    htraced v.entry (List.mem_append_left _ (List.mem_map_of_mem hv))
  rw [horigin] at hitem
  have hown : OwnKeys (start policy loadFromDisk
      (Archive.filled services).read.1.toOption).store.snapshots := by
    apply Directory.ownKeys_start
    intro map hmap
    obtain ⟨read, hread, hkeys⟩ := (Archive.filed_filled services).exists_read
    rw [hread] at hmap
    obtain rfl := Option.some.inj hmap
    exact hkeys
  have hkeys := (hloads.of_isPrefix hp).ownKeys_run (Archive.filed_filled services) hown
  exact hkeys v.key v.service ((KeyMap.get?_eq_some_iff_mem _).mpr hitem)

/-- For every entry that a pass finds, in whatever state, and every refresh of it whose reply is
accepted as a document of the same name and the same clusters, however these are spelled: the
document is then the snapshot of the entry, with the time when it was taken in for its stamp, and
nothing else changes with it. And a later pass that begins while this snapshot is there, over a copy
in any order, visits it once if it comes to its end, and sends it off exactly if more time has
passed since then than the document names, unless another document was accepted for it; even a pass
that is broken off never sends it off before. -/
theorem refresh_resets_entry (policy : Policy) (loadFromDisk : Bool) (services : List Service)
    (origin : Directory)
    (horigin : origin = start policy loadFromDisk (Archive.filled services).read.1.toOption)
    (width : Nat) (turns : List Turn) (u : Upkeep)
    (hrun : run? { scheduler := .ofWidth width, origin } turns = some u)
    (hloads : origin.LoadsFrom (Archive.filled services) u.done) (v : Visit) (hv : v ∈ u.visits)
    (d : Directory) (backend : Backend) (between : List Directory.Step) (reply : Arrival)
    (hreply : (d.answerFor backend v.service).reply = some reply.text)
    (hconditions : (d.answerFor backend v.service).conditions 0 = reply.conditions) (s : Service)
    (haccepted : (d.replied backend v.service between).Accepts reply s)
    (hname : s.name = v.service.name)
    (hclusters : normalizeClusters s.clusters = normalizeClusters v.service.clusters) :
    let before := d.replied backend v.service between
    let after := d.refreshing backend v.service between
    let clock := reply.conditions.clock
    after.store.get? v.key = some s ∧ after.store.lastRefresh v.key = clock ∧
      (∀ other, other ≠ v.key → after.store.get? other = before.store.get? other ∧
        after.store.stamps.get? other = before.store.stamps.get? other) ∧
      ∀ first meanwhile last, first.origin = after →
        first.directory.store.get? v.key = some s →
          (first.Completes meanwhile last →
            ∃ w, (visitsSince first last).filter (·.key = v.key) = [w] ∧ w.service = s ∧
              (after.accepted v.key w.done = [] →
                (w.sent = true ↔ s.cacheMillis.toNat < w.clock.toNat - clock.toNat))) ∧
          (first.Passing meanwhile last → ∀ w ∈ visitsSince first last, w.key = v.key →
            w.service = s ∧ (after.accepted v.key w.done = [] → w.sent = true →
              s.cacheMillis.toNat < w.clock.toNat - clock.toNat)) := by
  intro before after clock
  subst horigin
  have hkey : s.key = v.key := by
    rw [← key_of_visit services hrun hloads hv, Service.key, Service.key, ServiceKey.of,
      ServiceKey.of, hname, hclusters]
  have hstore : after.store = before.store.commit s.key s clock :=
    Directory.store_refreshing hreply hconditions haccepted
  have hlast : after.store.lastRefresh v.key = clock := by
    rw [hstore, Store.lastRefresh_commit, if_pos hkey]
  refine ⟨?_, hlast, ?_, ?_⟩
  · rw [hstore, Store.get?_commit, if_pos hkey]
  · intro other hne
    have hother : s.key ≠ other := fun h => hne (h.symm.trans hkey)
    rw [hstore, Store.get?_commit, Directory.stamps_commit, if_neg hother, if_neg hother]
    exact ⟨rfl, rfl⟩
  · intro first meanwhile last hfirst hsnapshot
    constructor
    · intro hcompletes
      have hsent := hcompletes.sent_iff hsnapshot
      rwa [hfirst, hlast] at hsent
    · intro hpassing w hw hkey
      rw [← hkey] at hsnapshot hlast ⊢
      have hsent := hpassing.due_of_sent hw hsnapshot
      rwa [hfirst, hlast] at hsent

/-- A backend that spells clusters in its own way. -/
def respellingBackend : Backend := fun _ =>
  { reply := some Directory.respelledArrival.text,
    conditions := fun _ => Directory.respelledArrival.conditions }

/-- The directory with a snapshot from disk when that has been refreshed. -/
def respelled : Directory :=
  Directory.openedOnLooselySpelled.refresh respellingBackend "a" " y,, "

/-- The turns of a pass over a single entry, as far as the entry is sent off. -/
def sending (d : Directory) (clock : Millis) : List Turn :=
  [.scheduler (.check clock d.store), .scheduler .dispatch]

/-- The snapshot is found under the key of the normal form, and a later pass finds the one of the
reply there, which is stale when a second and one more millisecond have passed. -/
theorem respelledEntry_reset :
    ∃ u v last w,
      (idle Directory.openedOnLooselySpelled).run?
        (.scheduler (.start Directory.openedOnLooselySpelled.store.items) ::
          sending Directory.openedOnLooselySpelled 5000) = some u ∧
      v ∈ u.visits ∧ v.service.clusters = " y,, " ∧ respelled.store.lastRefresh v.key = 1 ∧
      (idle respelled).Completes (sending respelled 1002) last ∧
      (visitsSince (idle respelled) last).filter (·.key = v.key) = [w] ∧
      w.service.clusters = "y , ,y" ∧ w.sent = true := by
  obtain ⟨u, hrun, hdone, v, hv, hservice⟩ :
      ∃ u ∈ (idle Directory.openedOnLooselySpelled).run?
        (.scheduler (.start Directory.openedOnLooselySpelled.store.items) ::
          sending Directory.openedOnLooselySpelled 5000), u.done.isEmpty = true ∧
            ∃ v ∈ u.visits, v.service = Service.placeholder "a" " y,, " := by
    decide +kernel
  obtain ⟨pass, hpass, last, hlast, hvisits⟩ :
      ∃ pass ∈ (idle respelled).run?
        (.scheduler (.start (idle respelled).directory.store.items) :: sending respelled 1002),
          ∃ last ∈ pass.turn? (.scheduler .rest),
            ∀ w ∈ visitsSince (idle respelled) last, w.done.isEmpty = true ∧ w.clock = 1002 := by
    decide +kernel
  obtain ⟨s, hs, hname, hclusters, hmillis⟩ :
      ∃ s ∈ Service.parse? Directory.respelledArrival.text,
        s.name = "a" ∧ s.clusters = "y , ,y" ∧ s.cacheMillis = 1000 := by
    decide +kernel
  have hcompletes : (idle respelled).Completes (sending respelled 1002) last :=
    ⟨pass, ⟨⟨_, hpass⟩, by simp [sending]⟩, hlast⟩
  have hloads : Directory.openedOnLooselySpelled.LoadsFrom
      (Archive.filled Directory.looselySpelled) u.done := by
    rw [List.isEmpty_iff.mp hdone]
    trivial
  have hreset := refresh_resets_entry {} true Directory.looselySpelled
    Directory.openedOnLooselySpelled rfl 1 _ u hrun hloads v hv
    Directory.openedOnLooselySpelled respellingBackend [] Directory.respelledArrival rfl rfl s
  have hafter : Directory.openedOnLooselySpelled.refreshing respellingBackend
      (Service.placeholder "a" " y,, ") [] = respelled := by
    rw [Directory.refreshing_nil, respelled]
    rfl
  rw [hservice, hafter] at hreset
  obtain ⟨hget, hstamp, _, hlater⟩ := hreset ⟨hs, by decide +kernel⟩ hname (by
    rw [hclusters]
    decide +kernel)
  obtain ⟨w, honce, hw, hdue⟩ :=
    (hlater (idle respelled) (sending respelled 1002) last (idle_origin respelled)
      (by rw [idle_directory, hget])).1 hcompletes
  obtain ⟨hquiet, hclock⟩ :=
    hvisits w (List.mem_of_mem_filter (honce.symm ▸ List.mem_singleton_self w))
  refine ⟨u, v, last, w, hrun, hv, by rw [hservice]; rfl, hstamp, hcompletes, honce,
    by rw [hw, hclusters], (hdue ?_).mpr ?_⟩
  · rw [List.isEmpty_iff.mp hquiet]
    rfl
  · rw [hmillis, hclock]
    decide

/-! ## Loaded entries -/

/-- Whatever is on disk when a directory is opened and loads it: a pass that comes to its end
visits each loaded entry once, in whatever order it copies them. As long as no document was accepted
for its key, the entry is sent off exactly if the clock reads more than the time that the snapshot
names. -/
theorem loaded_entry_sent_iff (archive : Archive) (map : KeyMap ServiceKey Service)
    (hread : archive.read.1.toOption = some map) (policy : Policy) (first last : Upkeep)
    (meanwhile : List Turn) (horigin : first.origin = start policy true archive.read.1.toOption)
    (hcompletes : first.Completes meanwhile last) (key : ServiceKey) (s : Service)
    (hloaded : map.get? key = some s) :
    ∃ w, (visitsSince first last).filter (·.key = key) = [w] ∧
      first.directory.store.get? key = some w.service ∧
      (first.origin.accepted key w.done = [] →
        (w.sent = true ↔ w.service.cacheMillis.toNat < w.clock.toNat)) := by
  have hstart : first.origin.store.get? key = some s := by
    rw [horigin, hread, Directory.start_get?]
    exact hloaded
  have hkept : first.directory.store.contains key = true :=
    Directory.contains_run first.done (Store.contains_iff.mpr ⟨s, hstart⟩)
  obtain ⟨t, ht⟩ := Store.contains_iff.mp hkept
  have hunstamped : first.origin.store.lastRefresh key = 0 := by
    rw [horigin, Store.lastRefresh, Directory.start_stamps]
    rfl
  obtain ⟨w, honce, rfl, hsent⟩ := hcompletes.sent_iff ht
  rw [hunstamped] at hsent
  exact ⟨w, honce, ht, hsent⟩

/-- A snapshot on disk that names a second is sent off when a second and one more millisecond have
passed since zero. -/
theorem looseEntry_sent :
    ∃ last w,
      (idle Directory.openedOnLooselySpelled).Completes
        (sending Directory.openedOnLooselySpelled 1001) last ∧
      (visitsSince (idle Directory.openedOnLooselySpelled) last).filter
        (·.key = ⟨"a", "y"⟩) = [w] ∧ w.sent = true := by
  obtain ⟨map, hread, s, hloaded⟩ :
      ∃ map ∈ (Archive.filled Directory.looselySpelled).read.1.toOption,
        ∃ s ∈ map.get? ⟨"a", "y"⟩, True := by
    decide +kernel
  obtain ⟨pass, hpass, last, hlast, hvisits⟩ :
      ∃ pass ∈ (idle Directory.openedOnLooselySpelled).run?
        (.scheduler (.start (idle Directory.openedOnLooselySpelled).directory.store.items) ::
          sending Directory.openedOnLooselySpelled 1001),
            ∃ last ∈ pass.turn? (.scheduler .rest),
              ∀ w ∈ visitsSince (idle Directory.openedOnLooselySpelled) last,
                w.done.isEmpty = true ∧ w.clock = 1001 ∧ w.service.cacheMillis = 1000 := by
    decide +kernel
  have hcompletes : (idle Directory.openedOnLooselySpelled).Completes
      (sending Directory.openedOnLooselySpelled 1001) last :=
    ⟨pass, ⟨⟨_, hpass⟩, by simp [sending]⟩, hlast⟩
  obtain ⟨w, honce, _, hdue⟩ := loaded_entry_sent_iff (Archive.filled Directory.looselySpelled)
    map hread {} (idle Directory.openedOnLooselySpelled) last _ (idle_origin _) hcompletes _ s
    hloaded.1
  obtain ⟨hquiet, hclock, hmillis⟩ :=
    hvisits w (List.mem_of_mem_filter (honce.symm ▸ List.mem_singleton_self w))
  refine ⟨last, w, hcompletes, honce, (hdue ?_).mpr ?_⟩
  · rw [List.isEmpty_iff.mp hquiet]
    rfl
  · rw [hmillis, hclock]
    decide

/-- A snapshot on disk that names the longest time there is. -/
def undying : List Service :=
  [{ Service.placeholder "a" "" with cacheMillis := 0xFFFFFFFFFFFFFFFF }]

def openedOnUndying : Directory := start {} true (Archive.filled undying).read.1.toOption

/-- The entry is loaded, nothing stamps it, and still the pass does not send it off. -/
theorem undyingEntry_not_sent :
    openedOnUndying.store.contains ⟨"a", ""⟩ = true ∧
      ∃ last,
        (idle openedOnUndying).Completes
          [.scheduler (.check 1700000000000 openedOnUndying.store)] last ∧
        last.done = [] ∧ (visitsSince (idle openedOnUndying) last).map (·.sent) = [false] := by
  obtain ⟨hloaded, pass, hpass, last, hlast, hdone, hsent⟩ :
      openedOnUndying.store.contains ⟨"a", ""⟩ = true ∧ ∃ pass ∈ (idle openedOnUndying).run?
        [.scheduler (.start (idle openedOnUndying).directory.store.items),
          .scheduler (.check 1700000000000 openedOnUndying.store)],
            ∃ last ∈ pass.turn? (.scheduler .rest), last.done.isEmpty = true ∧
              (visitsSince (idle openedOnUndying) last).map (·.sent) = [false] := by
    decide +kernel
  exact ⟨hloaded, last, ⟨pass, ⟨⟨_, hpass⟩, by simp⟩, hlast⟩, List.isEmpty_iff.mp hdone, hsent⟩

end Refresh.Upkeep

end ServiceDirectory
