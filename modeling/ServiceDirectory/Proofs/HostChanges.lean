import ServiceDirectory.Proofs.HostOrder

/-!
# What counts as a change of hosts

Instances are the same if they agree in each of their fields, weights bit for bit
and metadata key by key. Lists of hosts are compared as multisets of instances,
so a host that comes, goes, gives way to another one or differs in one field is
noticed, and the order of hosts is not.
-/

namespace ServiceDirectory.Instance

/-- A field of an instance. -/
inductive Field where
  | instanceId
  | ip
  | port
  | weight
  | healthy
  | enabled
  | ephemeral
  | clusterName
  | serviceName
  | metadata
  deriving DecidableEq

/-- Two instances have the same in a field. -/
def AgreeIn (a b : Instance) : Field → Prop
  | .instanceId => a.instanceId = b.instanceId
  | .ip => a.ip = b.ip
  | .port => a.port = b.port
  | .weight => a.weight.bits = b.weight.bits
  | .healthy => a.healthy = b.healthy
  | .enabled => a.enabled = b.enabled
  | .ephemeral => a.ephemeral = b.ephemeral
  | .clusterName => a.clusterName = b.clusterName
  | .serviceName => a.serviceName = b.serviceName
  | .metadata => ∀ key, a.metadata.get? key = b.metadata.get? key

theorem eq_iff_agreeIn {a b : Instance} : a = b ↔ ∀ field, a.AgreeIn b field := by
  constructor
  · rintro rfl field
    cases field with
    | metadata => exact fun _ => rfl
    | _ => rfl
  · intro h
    have hweight : a.weight = b.weight := congrArg Binary64.mk (h .weight)
    have hmetadata : a.metadata = b.metadata := KeyMap.ext_get? (h .metadata)
    rw [Instance.mk.injEq]
    exact ⟨h .instanceId, h .ip, h .port, hweight, h .healthy, h .enabled, h .ephemeral,
      h .clusterName, h .serviceName, hmetadata⟩

/-- One host in place of another one is no change only if it is the same. -/
theorem sameHosts_replace_iff (before after : List Instance) (x y : Instance) :
    sameHosts (before ++ x :: after) (before ++ y :: after) = true ↔ x = y := by
  rw [sameHosts_iff_perm, List.append_cons before x, List.append_cons before y,
    List.perm_append_right_iff, List.perm_append_left_iff, List.perm_singleton, List.singleton_inj]

theorem sameHosts_eq_false_of_length_ne {a b : List Instance} (h : a.length ≠ b.length) :
    sameHosts a b = false :=
  sameHosts_eq_false_iff.mpr fun hp => h hp.length_eq

theorem equivalence_sameHosts : Equivalence fun a b => sameHosts a b = true where
  refl a := sameHosts_iff_perm.mpr (List.Perm.refl a)
  symm h := sameHosts_iff_perm.mpr (sameHosts_iff_perm.mp h).symm
  trans h h' := sameHosts_iff_perm.mpr ((sameHosts_iff_perm.mp h).trans (sameHosts_iff_perm.mp h'))

/-- Hosts are compared as multisets of instances that are told apart by their fields. Hence the
comparison is an equivalence; a host in place of another one goes unnoticed exactly if it agrees
with it in every field; and a host that comes or goes is always noticed. -/
theorem sameHosts_compares_multisets :
    (∀ a b, sameHosts a b = true ↔ b.Perm a) ∧
    (∀ x y : Instance, x = y ↔ ∀ field, x.AgreeIn y field) ∧
    (Equivalence fun a b => sameHosts a b = true) ∧
    (∀ before after x y, sameHosts (before ++ x :: after) (before ++ y :: after) = true ↔
      ∀ field, x.AgreeIn y field) ∧
    ∀ before after x, sameHosts (before ++ after) (before ++ x :: after) = false ∧
      sameHosts (before ++ x :: after) (before ++ after) = false := by
  refine ⟨fun a b => ?_, fun _ _ => eq_iff_agreeIn, equivalence_sameHosts, ?_, ?_⟩
  · rw [sameHosts_iff_perm, List.perm_comm]
  · intro before after x y
    rw [sameHosts_replace_iff, eq_iff_agreeIn]
  · intro before after x
    constructor
    · apply sameHosts_eq_false_of_length_ne
      simp
    · apply sameHosts_eq_false_of_length_ne
      simp

end ServiceDirectory.Instance
