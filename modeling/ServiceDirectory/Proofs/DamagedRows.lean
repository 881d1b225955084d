import ServiceDirectory.Proofs.Independence

/-!
# Rows that cannot be read

A row whose document is no service is passed over, and the other rows are read as if
it were not there. A row of which some column is not even text fails the reading of
the whole table, whatever the other rows hold.
-/

namespace ServiceDirectory

/-- A row is not of texts exactly if there is a column without one. -/
theorem Row.isText_eq_false_iff {r : Row} :
    r.isText = false ↔ r.name.text? = none ∨ r.clusters.text? = none ∨ r.payload.text? = none := by
  simp only [isText, Cell.isText, Bool.and_eq_false_iff, Option.isSome_eq_false_iff,
    Option.isNone_iff_eq_none, or_assoc]

namespace Archive

theorem read_of_texts {rows : List Row} (h : ∀ r ∈ rows, r.isText = true) :
    (read ⟨.rows rows⟩).1 = .ok (entries rows) := by
  rw [read]
  simp only [List.all_eq_true.mpr h, if_true]

theorem read_of_not_text {rows : List Row} (h : ∃ r ∈ rows, r.isText = false) :
    (read ⟨.rows rows⟩).1 = .error .collect := by
  have hall : rows.all Row.isText = false := List.all_eq_false.mpr (by simpa using h)
  rw [read]
  simp only [hall, Bool.false_eq_true, if_false]

/-- A table is read exactly if each column of each row is text. What is then read has under each
key the snapshot of the last row for it that holds one, so that rows with other documents are only
passed over. One column that is not text, be it of a name, of clusters or of a document, fails the
reading. -/
theorem read_iff_texts (rows : List Row) :
    ((∃ map, (read ⟨.rows rows⟩).1 = .ok map ∧ ∀ key, map.get? key = lastSnapshot key rows) ↔
      ∀ r ∈ rows, ∃ name clusters payload, r = ⟨.text name, .text clusters, .text payload⟩) ∧
    ((read ⟨.rows rows⟩).1 = .error .collect ↔
      ∃ r ∈ rows, r.name.text? = none ∨ r.clusters.text? = none ∨ r.payload.text? = none) := by
  simp only [← Row.isText_iff, ← Row.isText_eq_false_iff]
  by_cases htexts : ∀ r ∈ rows, r.isText = true
  · have hread := read_of_texts htexts
    refine ⟨iff_of_true ⟨entries rows, hread, get?_entries rows⟩ htexts, iff_of_false ?_ ?_⟩
    · rw [hread]
      simp
    · rintro ⟨r, hr, hnot⟩
      rw [htexts r hr] at hnot
      cases hnot
  · have hspoiled : ∃ r ∈ rows, r.isText = false := by simpa using htexts
    have hread := read_of_not_text hspoiled
    refine ⟨iff_of_false ?_ htexts, iff_of_true hread hspoiled⟩
    rintro ⟨map, hmap, _⟩
    rw [hread] at hmap
    cases hmap

example : (read ⟨.rows [⟨.garbled [0xFF] (by decide), .text "", .text "\x7b\x7d"⟩]⟩).1 =
    .error .collect := rfl

/-- A row with a snapshot, and one whose payload is not text. -/
def spoiledRows : List Row :=
  [⟨.text "orders", .text "", .text "\x7b\"name\":\"orders\",\"clusters\":\"\"\x7d"⟩,
    ⟨.text "bad", .text "", .blob [0x78]⟩]

/-- The second row hides the snapshot of the first one. -/
theorem spoiledRows_not_read :
    (∃ r ∈ spoiledRows, r.snapshot?.isSome) ∧
      (read ⟨.rows spoiledRows⟩).1 = .error .collect := by
  have hspoiled : ∃ r ∈ spoiledRows, r.isText = false :=
    ⟨⟨.text "bad", .text "", .blob [0x78]⟩, by simp [spoiledRows], rfl⟩
  exact ⟨⟨_, List.mem_cons_self, by decide +kernel⟩, read_of_not_text hspoiled⟩

end Archive

end ServiceDirectory
