import ServiceDirectory.Proofs.HostChanges

/-!
# The order of instances is linear

A comparison turns around with its sides, and not coming after another instance
is transitive. Only instances that agree in every field compare equal: as weights
the two zeros differ, and so do doubles that are no numbers but differ in their
bits. So hosts have one arrangement in order, and that is what sorting gives,
whatever their order was.
-/

namespace ServiceDirectory.Instance

theorem order_swap (a b : Instance) : order a b = (order b a).swap :=
  Std.OrientedCmp.eq_swap

theorem order_ne_gt_trans {a b c : Instance} (hab : order a b ≠ .gt) (hbc : order b c ≠ .gt) :
    order a c ≠ .gt := by
  rw [ne_eq, ← Ordering.isLE_iff_ne_gt] at hab hbc ⊢
  exact Std.TransCmp.isLE_trans hab hbc

theorem order_eq_iff_agreeIn {a b : Instance} :
    order a b = .eq ↔ ∀ field, a.AgreeIn b field := by
  rw [Std.LawfulEqCmp.compare_eq_iff_eq, eq_iff_agreeIn]

/-- No host of a list comes after one that follows it. -/
def InOrder (hosts : List Instance) : Prop :=
  hosts.Pairwise fun a b => order a b ≠ .gt

theorem inOrder_iff_isLE {hosts : List Instance} :
    InOrder hosts ↔ hosts.Pairwise fun a b => (order a b).isLE := by
  simp only [InOrder, Ordering.isLE_iff_ne_gt, ne_eq]

theorem inOrder_sort (hosts : List Instance) : InOrder (sort hosts) :=
  inOrder_iff_isLE.mpr (pairwise_mergeSort_isLE hosts)

theorem eq_of_perm_of_inOrder {a b : List Instance} (hp : a.Perm b) (ha : InOrder a)
    (hb : InOrder b) : a = b :=
  eq_of_perm_of_pairwise_isLE hp (inOrder_iff_isLE.mp ha) (inOrder_iff_isLE.mp hb)

/-- Hosts have one arrangement in order, and sorting finds it. -/
theorem eq_sort_iff {hosts sorted : List Instance} :
    sorted = sort hosts ↔ sorted.Perm hosts ∧ InOrder sorted := by
  constructor
  · rintro rfl
    exact ⟨sort_perm hosts, inOrder_sort hosts⟩
  · rintro ⟨hp, ho⟩
    exact eq_of_perm_of_inOrder (hp.trans (sort_perm hosts).symm) ho (inOrder_sort hosts)

/-- The order of instances is linear: comparisons turn around with their sides, not being after
another instance is transitive, and equal are just instances that agree in every field. Hence
sorting gives the one arrangement in order, the same for each permutation of a list. -/
theorem order_linear :
    (∀ a b, order a b = (order b a).swap) ∧
    (∀ a b c, order a b ≠ .gt → order b c ≠ .gt → order a c ≠ .gt) ∧
    (∀ a b, order a b = .eq ↔ ∀ field, a.AgreeIn b field) ∧
    (∀ hosts sorted, sorted = sort hosts ↔ sorted.Perm hosts ∧ InOrder sorted) ∧
    ∀ a b, a.Perm b → sort a = sort b := by
  refine ⟨order_swap, fun a b c => order_ne_gt_trans, fun a b => order_eq_iff_agreeIn,
    fun hosts sorted => eq_sort_iff, fun a b => sort_eq_iff_perm.mpr⟩

/-- A host that differs from others of its kind in the bits of its weight. -/
def weighing (bits : UInt64) : Instance where
  ip := "10.0.0.7"
  port := 8848
  weight := ⟨bits⟩
  metadata := KeyMap.empty.insert "zone" "süd"

/-- A negative weight that is no number comes before the negative zero and so before the positive
one, which differs from the negative one; and hosts with these weights are sorted the same from
either end. -/
theorem zeros_ordered :
    order (weighing 0xFFF8000000000000) (weighing 0) ≠ .gt ∧
    order (weighing 0x8000000000000000) (weighing 0) ≠ .eq ∧
    sort [weighing 0, weighing 0x8000000000000000, weighing 0xFFF8000000000000] =
      sort [weighing 0xFFF8000000000000, weighing 0x8000000000000000, weighing 0] := by
  obtain ⟨-, htrans, hequal, -, hsort⟩ := order_linear
  refine ⟨?_, ?_, ?_⟩
  · exact htrans _ (weighing 0x8000000000000000) _ (by decide) (by decide)
  · intro h
    exact absurd ((hequal _ _).mp h .weight) (by simp [AgreeIn, weighing])
  · apply hsort
    decide

end ServiceDirectory.Instance
