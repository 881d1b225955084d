import Mathlib.Data.Set.Basic
import ServiceDirectory.Proofs.ByteOrder
import ServiceDirectory.Proofs.ClusterNames

/-!
# The normal form of clusters is canonical

A text of clusters stands for the set of the names between its commas. Its normal
form, cut at the commas, lists this set in strict order, so that texts of one set
have one normal form, and services of one name and one set have one key.
-/

namespace ServiceDirectory

/-- The names that a text has between its commas: trimmed, as far as something is left. -/
def namesBetweenCommas (text : String) : Set String :=
  {name | name ≠ "" ∧ ∃ piece ∈ text.toList.splitOn ',', Text.trim piece = name.toList}

/-- A text cut at its commas; the empty text has no pieces. -/
def cutAtCommas (text : String) : List String :=
  if text = "" then [] else (text.toList.splitOn ',').map String.ofList

theorem mem_namesBetweenCommas {name text : String} :
    name ∈ namesBetweenCommas text ↔ name ∈ Text.parts ',' text := by
  simp only [namesBetweenCommas, Set.mem_ofPred_eq, Text.parts, List.mem_map, List.mem_filter]
  constructor
  · rintro ⟨hne, piece, hpiece, htrim⟩
    refine ⟨name.toList, ⟨⟨piece, hpiece, htrim⟩, ?_⟩, String.ofList_toList⟩
    simpa using hne
  · rintro ⟨_, ⟨⟨piece, hpiece, rfl⟩, hne⟩, rfl⟩
    refine ⟨?_, piece, hpiece, String.toList_ofList.symm⟩
    intro hempty
    rw [← String.toList_inj, String.toList_ofList] at hempty
    simp [hempty] at hne

theorem namesBetweenCommas_eq_iff {a b : String} :
    namesBetweenCommas a = namesBetweenCommas b ↔
      ∀ name, name ∈ Text.parts ',' a ↔ name ∈ Text.parts ',' b := by
  simp only [Set.ext_iff, mem_namesBetweenCommas]

/-- Cutting at the commas undoes joining. -/
theorem cutAtCommas_normalizeClusters (clusters : String) :
    cutAtCommas (normalizeClusters clusters) = clusterNames clusters := by
  have hparts : ∀ name ∈ clusterNames clusters, Text.IsPart ',' name :=
    fun _ => isPart_of_mem_clusterNames
  rw [normalizeClusters, cutAtCommas]
  by_cases hnames : clusterNames clusters = []
  · rw [hnames]
    rfl
  · have hsplit := Text.splitOn_join hnames fun name hname => (hparts name hname).unseparated
    have hne : Text.join ',' (clusterNames clusters) ≠ "" := by
      intro hempty
      -- The empty text would be the only name, but no name is empty.
      rw [hempty] at hsplit
      obtain ⟨name, rest, hname⟩ := List.exists_cons_of_ne_nil hnames
      rw [hname, List.map_cons] at hsplit
      have hnil : name.toList = [] := (List.cons.inj hsplit).1.symm
      exact (hparts name (by simp [hname])).nonempty hnil
    rw [if_neg hne, hsplit, List.map_map]
    simp

/-- Cluster names are in the strict order of their bytes. -/
theorem pairwise_encode_clusterNames (clusters : String) :
    (clusterNames clusters).Pairwise fun a b => Text.Utf8.encode a < Text.Utf8.encode b := by
  have hsorted : (clusterNames clusters).Pairwise fun a b => (compare a b).isLE :=
    pairwise_mergeSort_isLE _
  apply (hsorted.and (nodup_clusterNames clusters)).imp
  rintro a b ⟨hle, hne⟩
  apply Text.Utf8.encode_lt
  cases h : compare a b with
  | lt => exact compareOfLessAndEq_eq_lt.mp h
  | eq => exact absurd (Std.LawfulEqCmp.eq_of_compare h) hne
  | gt => simp [h] at hle

/-- The normal form of clusters, cut at its commas, lists the set of their names in strict order of
bytes. Hence normal forms are the same exactly for the same set, the normal form of a normal form
is itself, keys are the same exactly for the same name and set, and a key can be built again from
its own parts. -/
theorem normalizeClusters_canonical :
    (∀ c, ((cutAtCommas (normalizeClusters c)).Pairwise
        fun a b => Text.Utf8.encode a < Text.Utf8.encode b) ∧
      ∀ name, name ∈ cutAtCommas (normalizeClusters c) ↔ name ∈ namesBetweenCommas c) ∧
    (∀ c d, normalizeClusters c = normalizeClusters d ↔
      namesBetweenCommas c = namesBetweenCommas d) ∧
    (∀ c, normalizeClusters (normalizeClusters c) = normalizeClusters c) ∧
    (∀ n m c d, ServiceKey.of n c = ServiceKey.of m d ↔
      n = m ∧ namesBetweenCommas c = namesBetweenCommas d) ∧
    ∀ n c, ServiceKey.of (ServiceKey.of n c).name (ServiceKey.of n c).clusters =
      ServiceKey.of n c := by
  refine ⟨fun c => ⟨?_, fun name => ?_⟩, fun c d => ?_, normalizeClusters_normalizeClusters,
    fun n m c d => ?_, ServiceKey.of_of⟩
  · rw [cutAtCommas_normalizeClusters]
    exact pairwise_encode_clusterNames c
  · rw [cutAtCommas_normalizeClusters, mem_clusterNames, mem_namesBetweenCommas]
  · rw [normalizeClusters_eq_iff, namesBetweenCommas_eq_iff]
  · rw [ServiceKey.of_eq_of_iff, namesBetweenCommas_eq_iff]

example : normalizeClusters " c2,\u3000c1,, c10 ,c1" = "c1,c10,c2" := by cbv

end ServiceDirectory
