import Mathlib.Data.List.Nodup
import ServiceDirectory.Proofs.Sorting
import ServiceDirectory.ServiceKey

/-!
# Normal forms of cluster texts

The cluster names of a text are trimmed, not empty, free of commas and in strict
order. Joined by commas such names are read back as they are, so the normal form
of a text is its own normal form, and a key can be built again from its parts.
-/

namespace ServiceDirectory

namespace Text

theorem mem_of_mem_trim {c : Char} {s : List Char} (h : c ∈ trim s) : c ∈ s := by
  have hstart : ∀ {l : List Char}, c ∈ trimStart l → c ∈ l := fun h =>
    (List.dropWhile_sublist _).subset h
  have h : c ∈ (trimStart s).reverse := hstart (by simpa [trim] using h)
  exact hstart (by simpa using h)

theorem trimStart_eq_self {s : List Char} (h : ∀ c ∈ s.head?, isBlank c = false) :
    trimStart s = s := by
  cases s with
  | nil => rfl
  | cons c s => simp [trimStart, h c (by simp)]

theorem isBlank_head?_trimStart {s : List Char} :
    ∀ c ∈ (trimStart s).head?, isBlank c = false := by
  intro c hc
  have h := List.head?_dropWhile_not isBlank s
  rw [trimStart] at hc
  rw [Option.mem_def.mp hc] at h
  simpa using h

theorem trim_of_trimmed {s : List Char} (h : Trimmed s) : trim s = s := by
  have hlast : trimStart s.reverse = s.reverse := by
    apply trimStart_eq_self
    intro c hc
    exact h.2 c (by simpa using hc)
  rw [trim, trimStart_eq_self h.1, hlast, List.reverse_reverse]

theorem trimmed_trim (s : List Char) : Trimmed (trim s) := by
  constructor
  · intro c hc
    have hp : trim s <+: trimStart s := by
      rw [← List.reverse_suffix]
      simpa [trim, trimStart] using List.dropWhile_suffix isBlank
    obtain ⟨rest, hrest⟩ := hp
    apply isBlank_head?_trimStart (s := s) c
    rw [← hrest, List.head?_append, Option.mem_def.mp hc]
    rfl
  · intro c hc
    rw [trim, List.getLast?_reverse] at hc
    exact isBlank_head?_trimStart c hc

/-- A text that is a part of its own: nothing to trim, and no separator in it. -/
structure IsPart (sep : Char) (s : String) : Prop where
  nonempty : s.toList ≠ []
  trimmed : Trimmed s.toList
  unseparated : sep ∉ s.toList

theorem not_mem_of_mem_splitOn {sep : Char} {s piece : List Char} (h : piece ∈ s.splitOn sep) :
    sep ∉ piece := by
  induction s generalizing piece with
  | nil =>
      rw [List.splitOn_nil, List.mem_singleton] at h
      simp [h]
  | cons c s ih =>
      rw [List.splitOn_cons_eq_if_modifyHead] at h
      split at h
      · rcases List.mem_cons.mp h with rfl | h
        · simp
        · exact ih h
      · rename_i hc
        cases hs : s.splitOn sep with
        | nil => simp [hs] at h
        | cons first rest =>
            rw [hs, List.modifyHead_cons, List.mem_cons] at h
            rcases h with rfl | h
            · have hfirst : sep ∉ first := ih (by simp [hs])
              have hne : sep ≠ c := by
                rintro rfl
                simp at hc
              simp [hfirst, hne]
            · exact ih (by simp [hs, h])

theorem isPart_of_mem_parts {sep : Char} {s part : String} (h : part ∈ parts sep s) :
    IsPart sep part := by
  simp only [parts, List.mem_map, List.mem_filter] at h
  obtain ⟨_, ⟨⟨piece, hpiece, rfl⟩, hne⟩, rfl⟩ := h
  refine ⟨by simpa using hne, by simpa using trimmed_trim piece, ?_⟩
  rw [String.toList_ofList]
  exact fun hsep => not_mem_of_mem_splitOn hpiece (mem_of_mem_trim hsep)

/-- Texts without their separator are told from what they are joined to. -/
theorem splitOn_join {sep : Char} {names : List String} (hne : names ≠ [])
    (h : ∀ s ∈ names, sep ∉ s.toList) :
    (join sep names).toList.splitOn sep = names.map String.toList := by
  rw [join, String.toList_ofList]
  apply List.splitOn_intercalate
  · exact List.forall_mem_map.mpr h
  · simpa using hne

/-- Parts joined by their separator are read back one by one. -/
theorem parts_join {sep : Char} {names : List String} (h : ∀ s ∈ names, IsPart sep s) :
    parts sep (join sep names) = names := by
  by_cases hn : names = []
  · subst hn
    simp [parts, join, trim, trimStart]
  · have hsplit : (join sep names).toList.splitOn sep = names.map String.toList :=
      splitOn_join hn fun s hs => (h s hs).unseparated
    have htrim : (names.map String.toList).map trim = names.map String.toList := by
      apply List.map_congr_left (g := id) _ |>.trans (List.map_id _)
      intro l hl
      obtain ⟨s, hs, rfl⟩ := List.mem_map.mp hl
      exact trim_of_trimmed (h s hs).trimmed
    have hfilter : (names.map String.toList).filter (!·.isEmpty) = names.map String.toList := by
      apply List.filter_eq_self.mpr
      intro l hl
      obtain ⟨s, hs, rfl⟩ := List.mem_map.mp hl
      simpa using (h s hs).nonempty
    rw [parts, hsplit, htrim, hfilter, List.map_map]
    simp

end Text

theorem nodup_eraseDups {α : Type*} [BEq α] [LawfulBEq α] :
    ∀ l : List α, l.eraseDups.Nodup
  | [] => by simp
  | a :: l => by
      rw [List.eraseDups_cons, List.nodup_cons]
      exact ⟨by simp, nodup_eraseDups _⟩
termination_by l => l.length
decreasing_by exact Nat.lt_succ_of_le (List.length_filter_le _ _)

theorem eraseDups_of_nodup {α : Type*} [BEq α] [LawfulBEq α] {l : List α} (h : l.Nodup) :
    l.eraseDups = l := by
  induction l with
  | nil => rfl
  | cons a l ih =>
      obtain ⟨ha, hl⟩ := List.nodup_cons.mp h
      have hfilter : l.filter (fun b => !b == a) = l := by
        apply List.filter_eq_self.mpr
        rintro b hb
        have hne : b ≠ a := fun hba => ha (hba ▸ hb)
        simpa using hne
      rw [List.eraseDups_cons, hfilter, ih hl]

theorem mem_clusterNames {name clusters : String} :
    name ∈ clusterNames clusters ↔ name ∈ Text.parts ',' clusters := by
  rw [clusterNames, List.mem_mergeSort, List.mem_eraseDups]

/-- Texts have the same cluster names in order if they name the same set. -/
theorem clusterNames_eq_iff {a b : String} :
    clusterNames a = clusterNames b ↔
      ∀ name, name ∈ Text.parts ',' a ↔ name ∈ Text.parts ',' b := by
  constructor
  · intro h name
    rw [← mem_clusterNames, ← mem_clusterNames, h]
  · intro h
    apply mergeSort_isLE_eq_iff_perm.mpr
    apply (List.perm_ext_iff_of_nodup (nodup_eraseDups _) (nodup_eraseDups _)).mpr
    intro name
    rw [List.mem_eraseDups, List.mem_eraseDups, h]

theorem nodup_clusterNames (clusters : String) : (clusterNames clusters).Nodup :=
  (List.mergeSort_perm _ _).nodup_iff.mpr (nodup_eraseDups _)

theorem isPart_of_mem_clusterNames {name clusters : String} (h : name ∈ clusterNames clusters) :
    Text.IsPart ',' name :=
  Text.isPart_of_mem_parts (mem_clusterNames.mp h)

/-- The cluster names of a normal form are those of the text it comes from. -/
theorem clusterNames_normalizeClusters (clusters : String) :
    clusterNames (normalizeClusters clusters) = clusterNames clusters := by
  have hparts : Text.parts ',' (normalizeClusters clusters) = clusterNames clusters :=
    Text.parts_join fun _ => isPart_of_mem_clusterNames
  rw [clusterNames, hparts, eraseDups_of_nodup (nodup_clusterNames clusters)]
  exact List.mergeSort_of_pairwise (pairwise_mergeSort_isLE _)

@[simp] theorem normalizeClusters_normalizeClusters (clusters : String) :
    normalizeClusters (normalizeClusters clusters) = normalizeClusters clusters := by
  rw [normalizeClusters, clusterNames_normalizeClusters, normalizeClusters]

theorem normalizeClusters_eq_iff {a b : String} :
    normalizeClusters a = normalizeClusters b ↔
      ∀ name, name ∈ Text.parts ',' a ↔ name ∈ Text.parts ',' b := by
  rw [← clusterNames_eq_iff]
  constructor
  · intro h
    rw [← clusterNames_normalizeClusters a, h, clusterNames_normalizeClusters]
  · exact congrArg (Text.join ',')

/-- Keys are the same for the same name and the same set of clusters, however spelled. -/
theorem ServiceKey.of_eq_of_iff {name other a b : String} :
    ServiceKey.of name a = ServiceKey.of other b ↔
      name = other ∧ ∀ c, c ∈ Text.parts ',' a ↔ c ∈ Text.parts ',' b := by
  rw [ServiceKey.of, ServiceKey.of, ServiceKey.mk.injEq, normalizeClusters_eq_iff]

/-- A key is the key of its own parts. -/
@[simp] theorem ServiceKey.of_of (name clusters : String) :
    ServiceKey.of (ServiceKey.of name clusters).name (ServiceKey.of name clusters).clusters =
      ServiceKey.of name clusters := by
  simp [ServiceKey.of]

end ServiceDirectory
