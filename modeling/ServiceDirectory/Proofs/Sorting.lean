import Mathlib.Data.List.Basic

/-!
# Sorting by a lawful comparison

Both hosts and cluster names are put in order by a merge sort along a comparison
whose equality is identity. Such a sort forgets the order of its input and nothing
else.
-/

namespace ServiceDirectory

open Std

variable {α : Type*} {cmp : α → α → Ordering}

theorem pairwise_mergeSort_isLE [TransCmp cmp] (l : List α) :
    (l.mergeSort fun a b => (cmp a b).isLE).Pairwise fun a b => (cmp a b).isLE := by
  apply List.pairwise_mergeSort
  · intro a b c hab hbc
    exact TransCmp.isLE_trans hab hbc
  · intro a b
    rw [@OrientedCmp.eq_swap α cmp _ b a]
    cases cmp a b <;> rfl

/-- Two lists in order with the same members, each as often, are one list. -/
theorem eq_of_perm_of_pairwise_isLE [OrientedCmp cmp] [LawfulEqCmp cmp] {l₁ l₂ : List α}
    (hp : l₁.Perm l₂) (h₁ : l₁.Pairwise fun a b => (cmp a b).isLE)
    (h₂ : l₂.Pairwise fun a b => (cmp a b).isLE) : l₁ = l₂ := by
  refine List.Perm.eq_of_pairwise ?_ h₁ h₂ hp
  intro a b _ _ hab hba
  exact LawfulEqCmp.eq_of_compare (OrientedCmp.isLE_antisymm hab hba)

theorem mergeSort_isLE_eq_iff_perm [TransCmp cmp] [LawfulEqCmp cmp] {l₁ l₂ : List α} :
    (l₁.mergeSort fun a b => (cmp a b).isLE) = (l₂.mergeSort fun a b => (cmp a b).isLE) ↔
      l₁.Perm l₂ := by
  constructor
  · intro h
    exact (List.mergeSort_perm l₁ _).symm.trans (h ▸ List.mergeSort_perm l₂ _)
  · intro h
    have hp := (List.mergeSort_perm l₁ fun a b => (cmp a b).isLE).trans
      (h.trans (List.mergeSort_perm l₂ fun a b => (cmp a b).isLE).symm)
    exact eq_of_perm_of_pairwise_isLE hp (pairwise_mergeSort_isLE l₁) (pairwise_mergeSort_isLE l₂)

end ServiceDirectory
