import ServiceDirectory.Proofs.Independence

/-!
# The last write of a service counts

An archive is written, closed and opened again, and others put rows into its table.
As long as their rows cannot be read and are not for services that are written, the
archive stands for a map: each service that was ever written has one entry there, with
what was written of it last. The rows of a service are its own, so writes of different
services can change places.
-/

namespace ServiceDirectory

/-- A row of texts of which the last is no service. -/
structure Row.IsStray (r : Row) : Prop where
  text : r.isText = true
  snapshot : r.snapshot? = none

theorem Row.IsStray.reading? {r : Row} (h : r.IsStray) : r.reading? = none := by
  rw [Row.reading?_eq, h.snapshot]
  cases r.key? <;> rfl

/-- What was written last under a key. -/
def lastOf (key : ServiceKey) (services : List Service) : Option Service :=
  (services.filter (·.key = key)).getLast?

theorem lastOf_cons (key : ServiceKey) (s : Service) (rest : List Service) :
    lastOf key (s :: rest) =
      if s.key = key then (lastOf key rest).or (some s) else lastOf key rest := by
  rw [lastOf, lastOf, List.filter_cons]
  by_cases hkey : s.key = key
  · rw [if_pos (decide_eq_true hkey), if_pos hkey, List.getLast?_cons]
    cases (rest.filter (·.key = key)).getLast? <;> rfl
  · rw [if_neg (by simpa using hkey), if_neg hkey]

theorem lastOf_eq_none {key : ServiceKey} {services : List Service}
    (h : ∀ s ∈ services, s.key ≠ key) : lastOf key services = none := by
  rw [lastOf, List.getLast?_eq_none_iff, List.filter_eq_nil_iff]
  intro s hs
  simpa using h s hs

theorem get?_foldl_insert_key (services : List Service) (map : KeyMap ServiceKey Service)
    (key : ServiceKey) :
    (services.foldl (fun map s => map.insert s.key s) map).get? key =
      (lastOf key services).or (map.get? key) := by
  induction services generalizing map with
  | nil => rfl
  | cons s rest ih =>
      rw [List.foldl_cons, ih, KeyMap.get?_insert, lastOf_cons]
      by_cases hkey : s.key = key
      · rw [if_pos hkey, if_pos hkey, Option.or_assoc, Option.some_or]
      · rw [if_neg hkey, if_neg hkey]

namespace Archive

/-! ## Rows of snapshots -/

/-- The rows after snapshots were written to an empty table. -/
def snapshotRows (services : List Service) : List Row :=
  services.foldl (fun rows s => upsert rows (Row.ofService s)) []

theorem snapshotRows_concat (services : List Service) (s : Service) :
    snapshotRows (services ++ [s]) = upsert (snapshotRows services) (Row.ofService s) :=
  List.foldl_concat ..

theorem tidy_snapshotRows (services : List Service) : Tidy (snapshotRows services) := by
  induction services using List.reverseRecOn with
  | nil => exact tidy_nil
  | append_singleton services s ih =>
      rw [snapshotRows_concat]
      exact ih.upsert (Row.isSnapshot_ofService s)

/-- Of snapshots that are read back from their documents, the last one of each service is read. -/
theorem get?_entries_snapshotRows {services : List Service}
    (hread : ∀ s ∈ services, Service.decode? s.print = some s) (key : ServiceKey) :
    (entries (snapshotRows services)).get? key = lastOf key services := by
  have hfold : entries (snapshotRows services) =
      services.foldl (fun map s => map.insert s.key s) KeyMap.empty := by
    induction services using List.reverseRecOn with
    | nil => rfl
    | append_singleton services s ih =>
        have hs := hread s (by simp)
        apply KeyMap.ext_get?
        intro key
        rw [snapshotRows_concat, (tidy_snapshotRows services).get?_entries_upsert, hs,
          ih fun t ht => hread t (List.mem_append_left _ ht), List.foldl_concat,
          KeyMap.get?_insert]
  rw [hfold, get?_foldl_insert_key, KeyMap.get?_empty, Option.or_none]

/-! ## Deeds -/

/-- What is done to an archive: its owner writes, and closes it and opens it again; others put
rows into its table. -/
inductive Deed where
  | write (service : Service)
  | reopen
  | putRow (row : Row)

/-- The snapshots that are written, in the order in which they are. -/
def written (deeds : List Deed) : List Service :=
  deeds.filterMap fun
    | .write s => some s
    | _ => none

/-- Whether a deed is one of the owner. -/
def Deed.isOwn : Deed → Bool
  | .putRow _ => false
  | _ => true

/-- A file in a directory, with nothing in its way. -/
def fileIn (directory : String) : Place := { directory := some directory }

/-- The archive after a deed, if it succeeds. -/
def act (place : Place) (archive : Archive) : Deed → Except ArchiveError Archive
  | .write s =>
    match archive.write s with
    | (.ok (), archive) => .ok archive
    | (.error cause, _) => .error cause
  | .reopen => archive.reopen place
  | .putRow row => .ok (archive.putRow row)

/-- An archive that is opened for the first time, after deeds. -/
def lived (directory : String) (deeds : List Deed) : Except ArchiveError Archive := do
  let archive ← openAt (fileIn directory)
  deeds.foldlM (act (fileIn directory)) archive

/-- The rows after a deed. -/
def rowsAfter (rows : List Row) : Deed → List Row
  | .write s => upsert rows (Row.ofService s)
  | .reopen => rows
  | .putRow row => rows.filter (!·.sameSlot row) ++ [row]

theorem act_rows (directory : String) (rows : List Row) (deed : Deed) :
    act (fileIn directory) ⟨.rows rows⟩ deed = .ok ⟨.rows (rowsAfter rows deed)⟩ := by
  cases deed <;> rfl

/-- In a file with nothing in its way no deed fails. -/
theorem lived_eq (directory : String) (deeds : List Deed) :
    lived directory deeds = .ok ⟨.rows (deeds.foldl rowsAfter [])⟩ := by
  have hfold : ∀ rows, deeds.foldlM (act (fileIn directory)) ⟨.rows rows⟩ =
      .ok ⟨.rows (deeds.foldl rowsAfter rows)⟩ := by
    induction deeds with
    | nil => exact fun _ => rfl
    | cons deed rest ih =>
        intro rows
        rw [List.foldlM_cons, act_rows]
        exact ih _
  exact hfold []

theorem written_concat (deeds : List Deed) (deed : Deed) :
    written (deeds ++ [deed]) =
      written deeds ++ match deed with
        | .write s => [s]
        | _ => [] := by
  rw [written, List.filterMap_append, ← written]
  cases deed <;> rfl

theorem written_filter_isOwn (deeds : List Deed) :
    written (deeds.filter Deed.isOwn) = written deeds := by
  rw [written, List.filterMap_filter, written]
  congr 1
  funext deed
  cases deed <;> rfl

/-! ## Rows service by service -/

/-- A row that is put touches only the rows of its own key. -/
theorem rowsOf_putRow (rows : List Row) {row : Row} {key? : Option ServiceKey}
    (h : row.key? ≠ key?) : rowsOf key? (rowsAfter rows (.putRow row)) = rowsOf key? rows := by
  have hlast : [row].filter (fun r => decide (r.key? = key?)) = [] := by simp [h]
  rw [rowsOf, rowsAfter, List.filter_append, hlast, List.append_nil, List.filter_filter, rowsOf]
  apply List.filter_congr
  intro r _
  by_cases hkey : r.key? = key?
  · have hother : r.sameSlot row = false := by
      rw [← Bool.not_eq_true]
      exact fun hsame => h ((Row.key?_eq_of_sameSlot hsame).symm.trans hkey)
    simp [hkey, hother]
  · simp [hkey]

/-- Deeds leave tables alike in which the rows of each service are the same. -/
theorem rowsOf_rowsAfter_congr {rows others : List Row}
    (h : ∀ key?, rowsOf key? rows = rowsOf key? others) (deed : Deed)
    (key? : Option ServiceKey) :
    rowsOf key? (rowsAfter rows deed) = rowsOf key? (rowsAfter others deed) := by
  cases deed with
  | write s => rw [rowsAfter, rowsAfter, rowsOf_upsert, rowsOf_upsert, h]
  | reopen => exact h key?
  | putRow row =>
      have hput : ∀ l : List Row, rowsOf key? (rowsAfter l (.putRow row)) =
          (rowsOf key? l).filter (!·.sameSlot row) ++ rowsOf key? [row] := by
        intro l
        rw [rowsOf, rowsOf, rowsOf, rowsAfter, List.filter_append, List.filter_filter,
          List.filter_filter]
        simp only [Bool.and_comm]
      rw [hput, hput, h]

theorem rowsOf_foldl_congr {rows others : List Row}
    (h : ∀ key?, rowsOf key? rows = rowsOf key? others) (deeds : List Deed)
    (key? : Option ServiceKey) :
    rowsOf key? (deeds.foldl rowsAfter rows) = rowsOf key? (deeds.foldl rowsAfter others) := by
  induction deeds generalizing rows others with
  | nil => exact h key?
  | cons deed rest ih => exact ih (rowsOf_rowsAfter_congr h deed)

/-- Writes of different services leave the same rows of each service in either order. -/
theorem rowsOf_write_comm {s t : Service} (h : s.key ≠ t.key) (rows : List Row)
    (key? : Option ServiceKey) :
    rowsOf key? (rowsAfter (rowsAfter rows (.write s)) (.write t)) =
      rowsOf key? (rowsAfter (rowsAfter rows (.write t)) (.write s)) := by
  simp only [rowsAfter, rowsOf_upsert]
  by_cases hs : some s.key = key?
  · have ht : some t.key ≠ key? := fun ht => h (Option.some.inj (hs.trans ht.symm))
    rw [if_neg ht, if_pos hs, if_pos hs, if_neg ht]
  · rw [if_neg hs, if_neg hs]

/-! ## What is read -/

/-- Rows that are those of snapshots for the services in question, and hold none otherwise. -/
structure Holds (own : ServiceKey → Prop) (rows : List Row) (services : List Service) : Prop where
  kept : ∀ key, own key → rowsOf (some key) rows = rowsOf (some key) (snapshotRows services)
  others : ∀ r ∈ rows, (∀ key, r.key? = some key → ¬ own key) → r.IsStray

namespace Holds

variable {own : ServiceKey → Prop} {rows : List Row} {services : List Service}

theorem write (h : Holds own rows services) {s : Service} (hs : own s.key) :
    Holds own (rowsAfter rows (.write s)) (services ++ [s]) where
  kept key hkey := by
    rw [rowsAfter, snapshotRows_concat, rowsOf_upsert, rowsOf_upsert, h.kept key hkey]
  others r hr hother := by
    rcases mem_upsert.mp hr with rfl | ⟨hr, _⟩
    · exact absurd hs (hother s.key (Row.key?_ofService s))
    · exact h.others r hr hother

theorem putRow (h : Holds own rows services) {row : Row} (hrow : row.IsStray)
    (hother : ∀ key, row.key? = some key → ¬ own key) :
    Holds own (rowsAfter rows (.putRow row)) services where
  kept key hkey := by
    have hne : row.key? ≠ some key := fun heq => hother key heq hkey
    rw [rowsOf_putRow rows hne, h.kept key hkey]
  others r hr hown := by
    rcases List.mem_append.mp hr with hr | hr
    · exact h.others r (List.mem_of_mem_filter hr) hown
    · obtain rfl := List.mem_singleton.mp hr
      exact hrow

/-- Deeds that write services in question only, and put none but stray rows of others. -/
theorem foldl {deeds : List Deed} (hwrites : ∀ s ∈ written deeds, own s.key)
    (hrows : ∀ row, .putRow row ∈ deeds →
      row.IsStray ∧ ∀ key, row.key? = some key → ¬ own key) :
    Holds own (deeds.foldl rowsAfter []) (written deeds) := by
  induction deeds using List.reverseRecOn with
  | nil => exact ⟨fun _ _ => rfl, by simp⟩
  | append_singleton deeds deed ih =>
      have hbefore := ih
        (fun s hs => hwrites s (by rw [written_concat]; exact List.mem_append_left _ hs))
        fun row hrow => hrows row (List.mem_append_left _ hrow)
      rw [List.foldl_concat, written_concat]
      cases deed with
      | write s => exact hbefore.write (hwrites s (by rw [written_concat]; simp))
      | reopen => simpa [rowsAfter] using hbefore
      | putRow row =>
          obtain ⟨hstray, hother⟩ := hrows row (by simp)
          simpa using hbefore.putRow hstray hother

theorem read (h : Holds own rows services) :
    (Archive.read ⟨.rows rows⟩).1 = .ok (entries rows) := by
  have htexts : rows.all Row.isText = true := by
    refine List.all_eq_true.mpr fun r hr => ?_
    by_cases hown : ∃ key, r.key? = some key ∧ own key
    · obtain ⟨key, hkey, hown⟩ := hown
      have hmem : r ∈ rowsOf (some key) (snapshotRows services) := by
        rw [← h.kept key hown]
        exact List.mem_filter.mpr ⟨hr, decide_eq_true hkey⟩
      exact ((tidy_snapshotRows services).snapshots r (List.mem_of_mem_filter hmem)).text
    · exact (h.others r hr fun key hkey howned => hown ⟨key, hkey, howned⟩).text
  rw [Archive.read]
  simp only [htexts, if_true]

theorem get?_entries (h : Holds own rows services) (hservices : ∀ s ∈ services, own s.key)
    (hread : ∀ s ∈ services, Service.decode? s.print = some s) (key : ServiceKey) :
    (entries rows).get? key = lastOf key services := by
  rw [get?_entries_rowsOf]
  by_cases hown : own key
  · rw [h.kept key hown, ← get?_entries_rowsOf, get?_entries_snapshotRows hread]
  · have hnone : (rowsOf (some key) rows).filterMap Row.reading? = [] := by
      apply List.filterMap_eq_nil_iff.mpr
      intro r hr
      obtain ⟨hr, hkey⟩ := List.mem_filter.mp hr
      have hkey : r.key? = some key := of_decide_eq_true hkey
      refine (h.others r hr fun other hother => ?_).reading?
      obtain rfl := Option.some.inj (hkey.symm.trans hother)
      exact hown
    have hlast : lastOf key services = none :=
      lastOf_eq_none fun s hs heq => hown (heq ▸ hservices s hs)
    rw [entries, hnone, hlast]
    rfl

end Holds

/-- An archive in a file, opened again any number of times, into which others put rows of texts that
are no services under keys that are never written: it can always be read, and what is read has for
each key that was written exactly one entry, with the snapshot written last under it, and no
other entries; it is the same without the rows of others. And whatever happens before and after,
two writes in a row under different keys can change places. -/
theorem last_write_counts (directory : String) (deeds : List Deed)
    (hfinite : ∀ s ∈ written deeds, ∀ i ∈ s.hosts, i.weight.isFinite = true)
    (hreads : ∀ s ∈ written deeds, ∀ i ∈ s.hosts, i.weight.ReadsBack)
    (hrows : ∀ row, .putRow row ∈ deeds →
      row.IsStray ∧ ∀ s ∈ written deeds, row.key? ≠ some s.key) :
    (∃ archive map, lived directory deeds = .ok archive ∧ archive.read.1 = .ok map ∧
      (∀ key, map.entries.filter (·.1 = key) =
        ((lastOf key (written deeds)).map (key, ·)).toList) ∧
      (lived directory (deeds.filter Deed.isOwn)).map (·.read.1) = .ok (.ok map)) ∧
    ∀ (before after : List Deed) (s t : Service), s.key ≠ t.key →
      (lived directory (before ++ .write s :: .write t :: after)).map (·.read.1) =
        (lived directory (before ++ .write t :: .write s :: after)).map (·.read.1) := by
  have hdecode : ∀ s ∈ written deeds, Service.decode? s.print = some s := fun s hs =>
    Service.decode?_print fun i hi => ⟨hfinite s hs i hi, hreads s hs i hi⟩
  let own := fun key => ∃ s ∈ written deeds, s.key = key
  have hown : ∀ s ∈ written deeds, own s.key := fun s hs => ⟨s, hs, rfl⟩
  have hall : Holds own (deeds.foldl rowsAfter []) (written deeds) := by
    apply Holds.foldl hown
    intro row hrow
    obtain ⟨hstray, hother⟩ := hrows row hrow
    refine ⟨hstray, fun key hkey ⟨s, hs, hown⟩ => hother s hs ?_⟩
    rw [hkey, hown]
  have hsame : Holds own ((deeds.filter Deed.isOwn).foldl rowsAfter []) (written deeds) := by
    rw [← written_filter_isOwn deeds]
    apply Holds.foldl (by rwa [written_filter_isOwn])
    intro row hrow
    cases List.of_mem_filter hrow
  refine ⟨⟨_, _, lived_eq directory deeds, hall.read, ?_, ?_⟩, ?_⟩
  · intro key
    rw [KeyMap.filter_entries_eq, hall.get?_entries hown hdecode]
  · have hmaps : entries ((deeds.filter Deed.isOwn).foldl rowsAfter []) =
        entries (deeds.foldl rowsAfter []) := by
      apply KeyMap.ext_get?
      intro key
      rw [hsame.get?_entries hown hdecode, hall.get?_entries hown hdecode]
    rw [lived_eq, ← hmaps]
    exact congrArg Except.ok hsame.read
  · intro before after s t hkeys
    rw [lived_eq, lived_eq]
    apply congrArg Except.ok
    apply read_eq_of_rowsOf
    intro key
    rw [List.foldl_append, List.foldl_append, List.foldl_cons, List.foldl_cons, List.foldl_cons,
      List.foldl_cons]
    exact rowsOf_foldl_congr (rowsOf_write_comm hkeys _) after key

/-- A service with a host, and what is written of it later, with its clusters spelled otherwise. -/
def populated : Service :=
  { Service.placeholder "a" "y,x" with hosts := [{ ip := "10.0.0.1", port := 80 }] }

def depopulated : Service := Service.placeholder "a" " x ,y,"

def crowdedDeeds : List Deed :=
  [.write populated, .putRow ⟨.text "b", .text "", .text "\x7boops"⟩, .reopen,
    .write (Service.placeholder "" "z"), .write depopulated, .reopen]

theorem key_populated : populated.key = depopulated.key := by
  have hparts : Text.parts ',' "y,x" = ["y", "x"] := by decide
  have hparts' : Text.parts ',' " x ,y," = ["x", "y"] := by decide
  apply ServiceKey.of_eq_of_iff.mpr
  refine ⟨rfl, fun c => ?_⟩
  rw [populated, depopulated, Service.placeholder, Service.placeholder, hparts, hparts']
  simp [or_comm]

theorem crowdedDeeds_last_write_counts :
    (∀ row, .putRow row ∈ crowdedDeeds →
        row.IsStray ∧ ∀ s ∈ written crowdedDeeds, row.key? ≠ some s.key) ∧
      ∃ archive map, lived "cache" crowdedDeeds = .ok archive ∧ archive.read.1 = .ok map ∧
        map.entries.filter (·.1 = populated.key) = [(populated.key, depopulated)] ∧
        map.entries.filter (·.1 = ⟨"b", ""⟩) = [] := by
  have hfinite : ∀ s ∈ written crowdedDeeds, ∀ i ∈ s.hosts, i.weight.isFinite = true := by decide
  have hreads : ∀ s ∈ written crowdedDeeds, ∀ i ∈ s.hosts, i.weight.ReadsBack := by
    decide +kernel
  have hrows : ∀ row, .putRow row ∈ crowdedDeeds →
      row.IsStray ∧ ∀ s ∈ written crowdedDeeds, row.key? ≠ some s.key := by
    intro row hrow
    obtain rfl : row = ⟨.text "b", .text "", .text "\x7boops"⟩ := by
      simpa [crowdedDeeds] using hrow
    exact ⟨⟨rfl, by decide +kernel⟩, by decide +kernel⟩
  obtain ⟨⟨archive, map, harchive, hmap, hentries, _⟩, _⟩ :=
    last_write_counts "cache" crowdedDeeds hfinite hreads hrows
  have hwritten : written crowdedDeeds = [populated, Service.placeholder "" "z", depopulated] := rfl
  have hother : (Service.placeholder "" "z").key ≠ populated.key := fun h =>
    absurd (congrArg ServiceKey.name h) (by decide)
  have hlast : lastOf populated.key (written crowdedDeeds) = some depopulated := by
    rw [hwritten, lastOf_cons, lastOf_cons, lastOf_cons, if_pos rfl, if_neg hother,
      if_pos key_populated.symm]
    rfl
  have hnone : lastOf ⟨"b", ""⟩ (written crowdedDeeds) = none := by decide +kernel
  exact ⟨hrows, archive, map, harchive, hmap, by rw [hentries, hlast]; rfl,
    by rw [hentries, hnone]; rfl⟩

end Archive

end ServiceDirectory
