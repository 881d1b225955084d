import ServiceDirectory.Archive.Basic
import ServiceDirectory.Proofs.ClusterNames
import ServiceDirectory.Proofs.Codec

/-!
# What an archive keeps

An archive to which only snapshots are written stands for a map: writing puts a
snapshot under its key, as far as its document is read back, and reading gives
the map. Keys survive the way through the rows since a row holds the normal form
of the clusters, of which it is the normal form again.
-/

namespace ServiceDirectory

namespace Cell

theorem isText_iff {cell : Cell} : cell.isText = true ↔ ∃ s, cell = .text s := by
  cases cell <;> simp [isText, text?]

end Cell

namespace Row

theorem isText_iff {r : Row} :
    r.isText = true ↔
      ∃ name clusters payload, r = ⟨.text name, .text clusters, .text payload⟩ := by
  obtain ⟨name, clusters, payload⟩ := r
  simp [isText, Cell.isText_iff, and_assoc]

theorem sameSlot_iff {a b : Row} :
    a.sameSlot b = true ↔ a.name = b.name ∧ a.clusters = b.clusters := by
  simp [sameSlot]

theorem sameSlot_comm (a b : Row) : a.sameSlot b = b.sameSlot a := by
  rw [Bool.eq_iff_iff, sameSlot_iff, sameSlot_iff, eq_comm, eq_comm (a := a.clusters)]

theorem key?_eq_of_sameSlot {a b : Row} (h : a.sameSlot b = true) : a.key? = b.key? := by
  obtain ⟨hname, hclusters⟩ := sameSlot_iff.mp h
  rw [key?, key?, hname, hclusters]

theorem reading?_eq (r : Row) :
    r.reading? = r.key?.bind fun key => r.snapshot?.map (key, ·) := by
  rw [reading?]
  cases r.key? <;> cases r.snapshot? <;> rfl

theorem reading?_eq_some_iff {r : Row} {key : ServiceKey} {s : Service} :
    r.reading? = some (key, s) ↔ r.key? = some key ∧ r.snapshot? = some s := by
  rw [reading?_eq]
  cases r.key? <;> cases r.snapshot? <;> simp

/-! ## Rows of snapshots -/

theorem isText_ofService (s : Service) : (ofService s).isText = true := rfl

theorem key?_ofService (s : Service) : (ofService s).key? = some s.key :=
  congrArg some (ServiceKey.of_of s.name s.clusters)

theorem key?_of_sameSlot_ofService {r : Row} {s : Service}
    (h : r.sameSlot (ofService s) = true) : r.key? = some s.key :=
  (key?_eq_of_sameSlot h).trans (key?_ofService s)

theorem snapshot?_ofService (s : Service) :
    (ofService s).snapshot? = Service.decode? s.print := by
  rw [snapshot?, ofService, Cell.text?, Option.bind_some]

theorem reading?_ofService (s : Service) :
    (ofService s).reading? = (Service.decode? s.print).map (s.key, ·) := by
  rw [reading?_eq, key?_ofService, Option.bind_some, snapshot?_ofService]

/-- A row as snapshots are written: of texts, and in the slot of its key. -/
structure IsSnapshot (r : Row) : Prop where
  text : r.isText = true
  slot : ∀ key, r.key? = some key → r.name = .text key.name ∧ r.clusters = .text key.clusters

theorem isSnapshot_ofService (s : Service) : (ofService s).IsSnapshot where
  text := isText_ofService s
  slot key hkey := by
    rw [key?_ofService] at hkey
    obtain rfl := Option.some.inj hkey
    exact ⟨rfl, rfl⟩

theorem sameSlot_ofService_iff {r : Row} (h : r.IsSnapshot) {key : ServiceKey}
    (hr : r.key? = some key) (s : Service) : r.sameSlot (ofService s) = true ↔ s.key = key := by
  constructor
  · intro hsame
    exact Option.some.inj ((key?_of_sameSlot_ofService hsame).symm.trans hr)
  · rintro rfl
    exact sameSlot_iff.mpr (h.slot s.key hr)

end Row

namespace Archive

/-- Rows to which only snapshots were put: each in a slot of its own. -/
structure Tidy (rows : List Row) : Prop where
  apart : rows.Pairwise fun a b => a.sameSlot b = false
  snapshots : ∀ r ∈ rows, r.IsSnapshot

theorem tidy_nil : Tidy [] := ⟨List.Pairwise.nil, by simp⟩

theorem mem_upsert {rows : List Row} {row r : Row} :
    r ∈ upsert rows row ↔ r = row ∨ r ∈ rows ∧ r.sameSlot row = false := by
  rw [upsert]
  split
  · rename_i hany
    obtain ⟨r₀, hr₀, hsame₀⟩ := List.any_eq_true.mp hany
    rw [List.mem_map]
    constructor
    · rintro ⟨a, ha, rfl⟩
      cases hsame : a.sameSlot row with
      | true => exact Or.inl rfl
      | false => exact Or.inr ⟨ha, hsame⟩
    · rintro (rfl | ⟨hr, hsame⟩)
      · exact ⟨r₀, hr₀, by rw [hsame₀, if_pos rfl]⟩
      · exact ⟨r, hr, by rw [hsame, if_neg (by decide)]⟩
  · rename_i hany
    have hother : ∀ a ∈ rows, a.sameSlot row = false := by simpa using hany
    rw [List.mem_append, List.mem_singleton, or_comm]
    exact or_congr_right ⟨fun hr => ⟨hr, hother r hr⟩, fun hr => hr.1⟩

theorem Tidy.upsert {rows : List Row} (h : Tidy rows) {row : Row} (hrow : row.IsSnapshot) :
    Tidy (upsert rows row) := by
  constructor
  · rw [Archive.upsert]
    split
    · rw [List.pairwise_map]
      apply h.apart.imp
      intro a b hab
      cases ha : a.sameSlot row with
      | true =>
          cases hb : b.sameSlot row with
          | true =>
              obtain ⟨han, hac⟩ := Row.sameSlot_iff.mp ha
              obtain ⟨hbn, hbc⟩ := Row.sameSlot_iff.mp hb
              rw [Row.sameSlot_iff.mpr ⟨han.trans hbn.symm, hac.trans hbc.symm⟩] at hab
              cases hab
          | false => simpa [Row.sameSlot_comm row b] using hb
      | false =>
          cases hb : b.sameSlot row with
          | true => simpa using ha
          | false => simpa using hab
    · rename_i hany
      have hother : ∀ a ∈ rows, a.sameSlot row = false := by simpa using hany
      rw [List.pairwise_append]
      refine ⟨h.apart, List.pairwise_singleton _ row, ?_⟩
      intro a ha b hb
      obtain rfl := List.mem_singleton.mp hb
      exact hother a ha
  · intro r hr
    rcases mem_upsert.mp hr with rfl | ⟨hr, _⟩
    · exact hrow
    · exact h.snapshots r hr

theorem Tidy.distinct {rows : List Row} (h : Tidy rows) :
    KeyMap.Distinct (rows.filterMap Row.reading?) := by
  rw [KeyMap.Distinct, List.pairwise_filterMap]
  apply h.apart.imp_of_mem
  rintro a b ha hb hab ⟨key, s⟩ hs ⟨_, t⟩ ht rfl
  obtain ⟨hna, hca⟩ := (h.snapshots a ha).slot key (Row.reading?_eq_some_iff.mp hs).1
  obtain ⟨hnb, hcb⟩ := (h.snapshots b hb).slot key (Row.reading?_eq_some_iff.mp ht).1
  rw [Row.sameSlot_iff.mpr ⟨hna.trans hnb.symm, hca.trans hcb.symm⟩] at hab
  cases hab

theorem Tidy.get?_entries {rows : List Row} (h : Tidy rows) {key : ServiceKey} {s : Service} :
    (entries rows).get? key = some s ↔ ∃ r ∈ rows, r.reading? = some (key, s) := by
  rw [entries, KeyMap.get?_ofList_eq_some_iff h.distinct, List.mem_filterMap]

/-- A snapshot that is put in its slot is read under its key; the others are read as before. -/
theorem Tidy.get?_entries_upsert {rows : List Row} (h : Tidy rows) (s : Service)
    (key : ServiceKey) :
    (entries (Archive.upsert rows (Row.ofService s))).get? key =
      if s.key = key then Service.decode? s.print else (entries rows).get? key := by
  have hrow := Row.isSnapshot_ofService s
  ext t
  rw [(h.upsert hrow).get?_entries]
  split
  · rename_i hkey
    constructor
    · rintro ⟨r, hr, hread⟩
      rcases mem_upsert.mp hr with rfl | ⟨hr, hother⟩
      · rw [Row.reading?_ofService, Option.map_eq_some_iff] at hread
        obtain ⟨u, hu, hpair⟩ := hread
        obtain ⟨_, rfl⟩ := Prod.mk.inj hpair
        exact hu
      · have hrow := Row.sameSlot_ofService_iff (h.snapshots r hr)
          (Row.reading?_eq_some_iff.mp hread).1 s
        rw [hrow.mpr hkey] at hother
        cases hother
    · intro ht
      exact ⟨Row.ofService s, mem_upsert.mpr (Or.inl rfl),
        by rw [Row.reading?_ofService, ht, hkey, Option.map_some]⟩
  · rename_i hkey
    rw [h.get?_entries]
    constructor
    · rintro ⟨r, hr, hread⟩
      rcases mem_upsert.mp hr with rfl | ⟨hr, _⟩
      · rw [Row.reading?_ofService, Option.map_eq_some_iff] at hread
        obtain ⟨u, _, hpair⟩ := hread
        exact absurd (Prod.mk.inj hpair).1 hkey
      · exact ⟨r, hr, hread⟩
    · rintro ⟨r, hr, hread⟩
      refine ⟨r, mem_upsert.mpr (Or.inr ⟨hr, ?_⟩), hread⟩
      rw [← Bool.not_eq_true]
      exact mt (Row.sameSlot_ofService_iff (h.snapshots r hr)
        (Row.reading?_eq_some_iff.mp hread).1 s).mp hkey

/-! ## The archive as a map -/

/-- An archive to which only snapshots were written, with what it reads as. -/
def Keeps (archive : Archive) (map : KeyMap ServiceKey Service) : Prop :=
  ∃ rows, archive.table = .rows rows ∧ Tidy rows ∧ entries rows = map

theorem keeps_empty : ({} : Archive).Keeps KeyMap.empty := ⟨[], rfl, tidy_nil, rfl⟩

theorem Keeps.read {archive : Archive} {map : KeyMap ServiceKey Service}
    (h : archive.Keeps map) : archive.read.1 = .ok map := by
  obtain ⟨rows, htable, htidy, hentries⟩ := h
  have htexts : rows.all Row.isText = true :=
    List.all_eq_true.mpr fun r hr => (htidy.snapshots r hr).text
  rw [Archive.read, htable]
  simp only [htexts, if_true, hentries]

/-- Writing a snapshot changes what is read for its key, to what its document is read as. -/
theorem Keeps.write {archive : Archive} {map : KeyMap ServiceKey Service}
    (h : archive.Keeps map) (s : Service) :
    ∃ map', (archive.write s).2.Keeps map' ∧
      ∀ key, map'.get? key = if s.key = key then Service.decode? s.print else map.get? key := by
  obtain ⟨rows, htable, htidy, rfl⟩ := h
  refine ⟨entries (upsert rows (Row.ofService s)),
    ⟨upsert rows (Row.ofService s), ?_, htidy.upsert (Row.isSnapshot_ofService s), rfl⟩,
    htidy.get?_entries_upsert s⟩
  rw [Archive.write, htable]

/-- A snapshot whose document is read back is kept as it is. -/
theorem Keeps.write_insert {archive : Archive} {map : KeyMap ServiceKey Service}
    (h : archive.Keeps map) {s : Service} (hs : Service.decode? s.print = some s) :
    (archive.write s).2.Keeps (map.insert s.key s) := by
  obtain ⟨map', hkeeps, hget⟩ := h.write s
  obtain rfl : map' = map.insert s.key s := by
    apply KeyMap.ext_get?
    intro key
    rw [hget, hs, KeyMap.get?_insert]
  exact hkeeps

/-- The archive after snapshots were written to a new one. -/
def filled (services : List Service) : Archive :=
  services.foldl (fun archive s => (archive.write s).2) {}

theorem exists_keeps_filled (services : List Service) : ∃ map, (filled services).Keeps map := by
  have hfold : ∀ archive : Archive, (∃ map, archive.Keeps map) →
      ∃ map, (services.foldl (fun archive s => (archive.write s).2) archive).Keeps map := by
    induction services with
    | nil => exact fun _ h => h
    | cons s rest ih =>
        rintro archive ⟨map, h⟩
        obtain ⟨map', hkeeps, _⟩ := h.write s
        exact ih _ ⟨map', hkeeps⟩
  exact hfold {} ⟨_, keeps_empty⟩

end Archive

end ServiceDirectory
