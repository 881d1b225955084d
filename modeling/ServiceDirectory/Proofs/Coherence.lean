import ServiceDirectory.Proofs.Restart

/-!
# Snapshots under their own keys

Whichever way a snapshot comes into the store or onto disk, it is found there under
the key that its own name and clusters give. So no service is there twice, in
whatever spellings its clusters came, and a refresh that asks with the name and
clusters of a snapshot is for the entry where the snapshot was found.
-/

namespace ServiceDirectory

/-- Two snapshots of one service: the same name and the same set of clusters, however spelled. -/
def Service.SameService (s t : Service) : Prop :=
  s.name = t.name ∧ ∀ c, c ∈ Text.parts ',' s.clusters ↔ c ∈ Text.parts ',' t.clusters

theorem Service.sameService_iff {s t : Service} : s.SameService t ↔ s.key = t.key :=
  ServiceKey.of_eq_of_iff.symm

/-- Each snapshot is under its own key, and no service is there twice. -/
structure Coherent (entries : List (ServiceKey × Service)) : Prop where
  own : ∀ e ∈ entries, e.2.key = e.1
  apart : entries.Pairwise fun a b => ¬ a.2.SameService b.2

/-- A map that has each snapshot under its own key. -/
def OwnKeys (map : KeyMap ServiceKey Service) : Prop :=
  ∀ key s, map.get? key = some s → s.key = key

namespace OwnKeys

variable {map : KeyMap ServiceKey Service}

theorem empty : OwnKeys KeyMap.empty := by
  intro key s hs
  cases hs

theorem insert (h : OwnKeys map) (s : Service) : OwnKeys (map.insert s.key s) := by
  intro key t ht
  rw [KeyMap.get?_insert] at ht
  split at ht
  · rename_i hkey
    obtain rfl := Option.some.inj ht
    exact hkey
  · exact h key t ht

/-- The entries of one map laid over another one. -/
theorem overlay (h : OwnKeys map) {top : KeyMap ServiceKey Service} (htop : OwnKeys top) :
    OwnKeys (top.entries.foldl (fun map e => map.insert e.1 e.2) map) := by
  intro key s hs
  rw [KeyMap.get?_foldl_insert top.distinct_entries] at hs
  rcases Option.or_eq_some_iff.mp hs with hs | ⟨_, hs⟩
  · exact htop key s hs
  · exact h key s hs

theorem coherent (h : OwnKeys map) : Coherent map.entries := by
  have hown : ∀ e ∈ map.entries, e.2.key = e.1 :=
    fun e he => h e.1 e.2 (map.get?_eq_some_iff_mem.mpr he)
  refine ⟨hown, map.distinct_entries.imp_of_mem ?_⟩
  intro a b ha hb hkeys hsame
  have hkey := Service.sameService_iff.mp hsame
  rw [hown a ha, hown b hb] at hkey
  exact hkeys hkey

end OwnKeys

namespace Archive

/-- An archive to which only snapshots were written, and which reads each under its own key. -/
def Filed (archive : Archive) : Prop := ∃ map, archive.Keeps map ∧ OwnKeys map

variable {archive : Archive}

theorem filed_empty : ({} : Archive).Filed := ⟨_, keeps_empty, OwnKeys.empty⟩

/-- A snapshot is written under its key, and its document has that key too. -/
theorem Filed.write (h : archive.Filed) (s : Service) : (archive.write s).2.Filed := by
  obtain ⟨map, hkeeps, hown⟩ := h
  obtain ⟨map', hkeeps', hget⟩ := hkeeps.write s
  refine ⟨map', hkeeps', ?_⟩
  intro key t ht
  rw [hget] at ht
  split at ht
  · rename_i hkey
    exact (Service.key_of_decode?_print ht).trans hkey
  · exact hown key t ht

theorem filed_filled (services : List Service) : (filled services).Filed := by
  have hfold : ∀ archive : Archive, archive.Filed →
      (services.foldl (fun archive s => (archive.write s).2) archive).Filed := by
    induction services with
    | nil => exact fun _ h => h
    | cons s rest ih => exact fun _ h => ih _ (h.write s)
  exact hfold {} filed_empty

theorem Filed.following (h : archive.Filed) (events : List Event) :
    (archive.following events).Filed := by
  induction events generalizing archive with
  | nil => exact h
  | cons event rest ih =>
      cases event with
      | wrote s succeeded seen =>
          cases succeeded with
          | true => exact ih (h.write s)
          | false => exact ih h
      | judged text clock verdict => exact ih h
      | asked query => exact ih h
      | published s sinkFailed seen => exact ih h

theorem Filed.exists_read (h : archive.Filed) : ∃ map, archive.read.1 = .ok map ∧ OwnKeys map := by
  obtain ⟨map, hkeeps, hown⟩ := h
  exact ⟨map, hkeeps.read, hown⟩

end Archive

namespace Directory

/-- What a step loads, if it loads anything, is what the archive holds. -/
def Step.LoadsFrom (archive : Archive) : Step → Prop
  | .load readings => ∀ map ∈ readings, archive.read.1 = .ok map
  | _ => True

/-- Each load of a run gets what the archive holds at that moment, or nothing. -/
def LoadsFrom (archive : Archive) (d : Directory) : List Step → Prop
  | [] => True
  | s :: rest => s.LoadsFrom (archive.following d.events) ∧ (d.step s).LoadsFrom archive rest

theorem loadsFrom_append {archive : Archive} {d : Directory} {first rest : List Step} :
    d.LoadsFrom archive (first ++ rest) ↔
      d.LoadsFrom archive first ∧ (d.run first).LoadsFrom archive rest := by
  induction first generalizing d with
  | nil => simp [LoadsFrom]
  | cons s first ih => simp [LoadsFrom, ih, and_assoc]

theorem loadsFrom_take (archive : Archive) (d : Directory) (arrivals : List Arrival) :
    d.LoadsFrom archive (arrivals.map .take) := by
  induction arrivals generalizing d with
  | nil => trivial
  | cons a rest ih => exact ⟨trivial, ih _⟩

/-- Every beginning of such a run is one. -/
theorem LoadsFrom.of_isPrefix {archive : Archive} {d : Directory} {steps all : List Step}
    (h : d.LoadsFrom archive all) (hp : steps <+: all) : d.LoadsFrom archive steps := by
  obtain ⟨rest, rfl⟩ := hp
  exact (loadsFrom_append.mp h).1

theorem Step.loadsFrom_read (archive : Archive) :
    (Step.load archive.read.1.toOption).LoadsFrom archive := by
  intro map hmap
  cases hread : archive.read.1 with
  | error e => simp [hread, Except.toOption] at hmap
  | ok read => simpa [hread, Except.toOption] using hmap

variable {archive : Archive} {d : Directory}

theorem ownKeys_load (h : OwnKeys d.store.snapshots)
    {readings : Option (KeyMap ServiceKey Service)} (hreadings : ∀ map ∈ readings, OwnKeys map) :
    OwnKeys (d.load readings).store.snapshots := by
  cases readings with
  | none => exact h
  | some map =>
      rw [load, foldl_set]
      exact h.overlay (hreadings map rfl)

theorem ownKeys_receive (h : OwnKeys d.store.snapshots) (a : Arrival) :
    OwnKeys (d.receive a).2.store.snapshots := by
  generalize hr : d.receive a = result
  cases received hr with
  | rejected hs => exact h
  | ignored hs hold hpolicy hempty => exact h
  | unchanged hs hold hkeep hsame => exact h.insert _
  | changed hs hnews => exact h.insert _

theorem ownKeys_step (h : OwnKeys d.store.snapshots) (harchive : archive.Filed) {s : Step}
    (hs : s.LoadsFrom archive) : OwnKeys (d.step s).store.snapshots := by
  cases s with
  | ask query => exact h
  | place name clusters => exact h.insert (Service.placeholder name clusters)
  | take a => exact ownKeys_receive h a
  | load readings =>
      apply ownKeys_load h
      intro map hmap
      obtain ⟨map', hread, hown⟩ := harchive.exists_read
      obtain rfl : map' = map := Except.ok.inj (hread.symm.trans (hs map hmap))
      exact hown

theorem LoadsFrom.ownKeys_run {steps : List Step} (hloads : d.LoadsFrom archive steps)
    (harchive : archive.Filed) (h : OwnKeys d.store.snapshots) :
    OwnKeys (d.run steps).store.snapshots := by
  induction steps generalizing d with
  | nil => exact h
  | cons s rest ih =>
      exact ih hloads.2 (ownKeys_step h (harchive.following d.events) hloads.1)

theorem ownKeys_start (policy : Policy) (loadFromDisk : Bool)
    {readings : Option (KeyMap ServiceKey Service)} (hreadings : ∀ map ∈ readings, OwnKeys map) :
    OwnKeys (start policy loadFromDisk readings).store.snapshots := by
  cases loadFromDisk with
  | false => exact OwnKeys.empty
  | true => exact ownKeys_load OwnKeys.empty hreadings

/-- In every state of a run that starts from an archive to which only snapshots were written, and
that loads nothing but what the archive holds at the time: each entry of the store, and each that
can be read from the archive, is under the key of its own snapshot, and no two of them are for
one name and one set of clusters. -/
theorem entries_coherent (policy : Policy) (loadFromDisk : Bool) (services : List Service)
    (opened : Directory)
    (hopened : opened =
      start policy loadFromDisk (Archive.filled services).read.1.toOption)
    (history : List Operation) (steps : List Step) (hp : steps <+: opened.trace history)
    (hloads : opened.LoadsFrom (Archive.filled services) steps) :
    Coherent (opened.run steps).store.items ∧
      ∃ map, ((Archive.filled services).following (opened.run steps).events).read.1 = .ok map ∧
        Coherent map.entries := by
  subst hopened
  have harchive := Archive.filed_filled services
  obtain ⟨first, hfirst, hown⟩ := harchive.exists_read
  have hstart : OwnKeys (start policy loadFromDisk
      (Archive.filled services).read.1.toOption).store.snapshots := by
    apply ownKeys_start
    intro map hmap
    rw [hfirst] at hmap
    obtain rfl := Option.some.inj hmap
    exact hown
  obtain ⟨map, hread, hmap⟩ := (harchive.following _).exists_read
  exact ⟨(hloads.ownKeys_run harchive hstart).coherent, map, hread, hmap.coherent⟩

/-- A snapshot on disk whose clusters are spelled loosely. -/
def looselySpelled : List Service := [Service.placeholder "a" " y,, "]

def openedOnLooselySpelled : Directory :=
  start {} true (Archive.filled looselySpelled).read.1.toOption

/-- A document with a host for the same clusters in another spelling. -/
def respelledArrival : Arrival :=
  ⟨"[\"a\",\"\",\"y , ,y\",1000,[[\"\",\"10.0.0.1\",80]]]", { clock := 1 }⟩

/-- A document, and then a load of what is on disk by then. -/
def reloading (archive : Archive) (d : Directory) (a : Arrival) : List Operation :=
  [.receive a, .load (archive.following (d.receive a).2.events).read.1.toOption]

theorem loadsFrom_reloading (archive : Archive) (d : Directory) (a : Arrival) :
    d.LoadsFrom archive (d.trace (reloading archive d a)) :=
  ⟨trivial, Step.loadsFrom_read _, trivial⟩

theorem respelledArrival_coherent :
    let archive := Archive.filled looselySpelled
    let history := reloading archive openedOnLooselySpelled respelledArrival
    openedOnLooselySpelled.LoadsFrom archive (openedOnLooselySpelled.trace history) ∧
      Coherent (openedOnLooselySpelled.after history).store.items ∧
      openedOnLooselySpelled.judge { name := "a", clusters := "y , ,y" } = .ignoredEmpty := by
  intro archive history
  have hloads := loadsFrom_reloading archive openedOnLooselySpelled respelledArrival
  have hcoherent := entries_coherent {} true looselySpelled openedOnLooselySpelled rfl history _
    List.prefix_rfl hloads
  rw [run_trace] at hcoherent
  exact ⟨hloads, hcoherent.1, by decide +kernel⟩

end Directory

end ServiceDirectory
