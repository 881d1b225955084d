import ServiceDirectory.Decimal.Binary64
import ServiceDirectory.KeyMap

/-!
# Instances

An instance is one network endpoint behind a service. Instances are linearly
ordered by all their fields, and two lists of hosts hold the same instances if
they agree once sorted.
-/

namespace ServiceDirectory

/-- Key-value pairs that the registering application attached. -/
abbrev Metadata := KeyMap String String

structure Instance where
  instanceId : String := ""
  ip : String
  port : UInt16
  weight : Binary64 := Binary64.one
  healthy : Bool := true
  enabled : Bool := true
  ephemeral : Bool := false
  clusterName : String := ""
  serviceName : String := ""
  metadata : Metadata := KeyMap.empty
  deriving DecidableEq

namespace Instance

section Order

attribute [local instance] lexOrd

/-- The fields from the most to the least significant; weights by their bits in total order. -/
def order (a b : Instance) : Ordering :=
  compareLex (compareOn (·.ip))
    (compareLex (compareOn (·.port.toNat))
      (compareLex (compareOn (·.instanceId))
        (compareLex (compareOn (·.clusterName))
          (compareLex (compareOn (·.serviceName))
            (compareLex (compareOn (·.weight))
              (compareLex (compareOn (·.healthy))
                (compareLex (compareOn (·.enabled))
                  (compareLex (compareOn (·.ephemeral))
                    (compareOn (·.metadata.entries)))))))))) a b

end Order

/-- Hosts in order; equal ones keep their places. -/
def sort (hosts : List Instance) : List Instance :=
  hosts.mergeSort fun a b => (order a b).isLE

/-- Whether two lists hold the same instances, each as often, in whatever order. -/
def sameHosts (a b : List Instance) : Bool :=
  a.length == b.length &&
    ((sort a).zip (sort b)).all fun p => order p.1 p.2 == .eq

end Instance

end ServiceDirectory
