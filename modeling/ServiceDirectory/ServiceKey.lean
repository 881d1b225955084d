import ServiceDirectory.KeyMap
import ServiceDirectory.Text.Blank

/-!
# Service keys

A service is identified by its name and the set of its cluster names. The set is
kept as one text in a normal form, so two spellings of one set give one key.
-/

namespace ServiceDirectory

/-- The set of cluster names in a comma-separated text, in code point order. -/
def clusterNames (clusters : String) : List String :=
  (Text.parts ',' clusters).eraseDups.mergeSort fun a b => (compare a b).isLE

/-- The normal form of a comma-separated text of cluster names. -/
def normalizeClusters (clusters : String) : String := Text.join ',' (clusterNames clusters)

/-- The identity of a service; no clusters means all of them. -/
structure ServiceKey where
  name : String
  clusters : String
  deriving DecidableEq, Inhabited

namespace ServiceKey

/-- The key of a service name with any spelling of its clusters. -/
def of (name clusters : String) : ServiceKey := ⟨name, normalizeClusters clusters⟩

/-- Between the name and the clusters in a rendered key. -/
def separator : String := "@@"

/-- The key as one text. Different keys can render alike if a name holds the separator. -/
def render (key : ServiceKey) : String :=
  if key.clusters.isEmpty then key.name else key.name ++ separator ++ key.clusters

instance : Ord ServiceKey where
  compare := compareLex (compareOn name) (compareOn clusters)

instance : Std.TransOrd ServiceKey :=
  inferInstanceAs (Std.TransCmp (compareLex (compareOn name) (compareOn clusters)))

instance : Std.LawfulEqOrd ServiceKey where
  compare_self := @Std.ReflCmp.compare_self _ (compareLex (compareOn name) (compareOn clusters)) _
  eq_of_compare {a b} h := by
    have h : compareLex (compareOn name) (compareOn clusters) a b = .eq := h
    simp only [compareLex, compareOn, Ordering.then_eq_eq] at h
    cases a; cases b
    simp_all

end ServiceKey

end ServiceDirectory
