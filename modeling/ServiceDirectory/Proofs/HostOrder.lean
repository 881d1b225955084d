import ServiceDirectory.Instance
import ServiceDirectory.Proofs.Sorting

/-!
# Comparing hosts

The order of instances is lawful: it is transitive, and instances that compare
equal agree in every field. Hence two lists hold the same hosts exactly if one is
a permutation of the other.
-/

namespace ServiceDirectory.Instance

section Order

attribute [local instance] lexOrd

instance : Std.TransCmp order :=
  inferInstanceAs (Std.TransCmp (compareLex (compareOn ip)
    (compareLex (compareOn fun i : Instance => i.port.toNat)
      (compareLex (compareOn instanceId)
        (compareLex (compareOn clusterName)
          (compareLex (compareOn serviceName)
            (compareLex (compareOn weight)
              (compareLex (compareOn healthy)
                (compareLex (compareOn enabled)
                  (compareLex (compareOn ephemeral)
                    (compareOn fun i : Instance => i.metadata.entries)))))))))))

theorem eq_of_order_eq {a b : Instance} (h : order a b = .eq) : a = b := by
  simp only [order, compareLex, compareOn, Ordering.then_eq_eq,
    Std.LawfulEqCmp.compare_eq_iff_eq] at h
  obtain ⟨hip, hport, hid, hcluster, hservice, hweight, hhealthy, henabled, hephemeral, hdata⟩ := h
  have hport : a.port = b.port := UInt16.toNat_inj.mp hport
  have hdata : a.metadata = b.metadata := by
    cases ha : a.metadata
    cases hb : b.metadata
    simp_all
  cases a
  cases b
  simp_all

end Order

instance : Std.LawfulEqCmp order where
  eq_of_compare := eq_of_order_eq

theorem all_zip_order_eq {a b : List Instance} (hl : a.length = b.length) :
    ((a.zip b).all fun p => order p.1 p.2 == .eq) = true ↔ a = b := by
  induction a generalizing b with
  | nil =>
      obtain rfl : b = [] := List.eq_nil_of_length_eq_zero hl.symm
      simp
  | cons x a ih =>
      cases b with
      | nil => simp at hl
      | cons y b =>
          have hl : a.length = b.length := by simpa using hl
          simp [ih hl]

theorem sort_perm (hosts : List Instance) : (sort hosts).Perm hosts :=
  List.mergeSort_perm hosts _

theorem length_sort (hosts : List Instance) : (sort hosts).length = hosts.length :=
  (sort_perm hosts).length_eq

theorem sort_eq_iff_perm {a b : List Instance} : sort a = sort b ↔ a.Perm b :=
  mergeSort_isLE_eq_iff_perm

/-- The change detector compares hosts as multisets. -/
theorem sameHosts_iff_perm {a b : List Instance} : sameHosts a b = true ↔ a.Perm b := by
  simp only [sameHosts, Bool.and_eq_true, beq_iff_eq]
  constructor
  · rintro ⟨hl, hall⟩
    exact sort_eq_iff_perm.mp ((all_zip_order_eq (by rw [length_sort, length_sort, hl])).mp hall)
  · intro hp
    refine ⟨hp.length_eq, (all_zip_order_eq ?_).mpr (sort_eq_iff_perm.mpr hp)⟩
    rw [length_sort, length_sort, hp.length_eq]

theorem sameHosts_eq_false_iff {a b : List Instance} : sameHosts a b = false ↔ ¬ a.Perm b := by
  rw [← sameHosts_iff_perm, Bool.not_eq_true]

end ServiceDirectory.Instance
