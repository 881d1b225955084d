import ServiceDirectory.Backend.Query
import ServiceDirectory.Service.Codec

/-!
# Questions as requests

Each kind of question has a path of its own, and its arguments are the
parameters of the request. The clusters of a batched question are one parameter,
a JSON object by service name, whose members may be listed in any order.
-/

namespace ServiceDirectory.Query

def path : Query → String
  | .single .. => "/nacos/v1/ns/instance/list"
  | .batch .. => "/nacos/v1/ns/instance/list/multi"
  | .catalog .. => "/nacos/v1/ns/catalog/services"

def flagText (flag : Bool) : String := if flag then "true" else "false"

def portText (port : UInt16) : String := String.ofList (Nat.toDigits 10 port.toNat)

/-- The clusters that a question lists by service name, in key order. -/
def listing : Query → List (String × String)
  | .batch _ clusters .. => clusters.entries
  | _ => []

/-- A list has each of these clusters once. In which order they are listed is not specified. -/
def IsListedBy (query : Query) (listing : List (String × String)) : Prop :=
  listing.Perm query.listing

/-- The parameters of a question that lists its clusters like this; a catalog names its namespace
itself. -/
def parameters (namespaceId : String) (listing : List (String × String)) :
    Query → List (String × String)
  | .single name clusters port healthyOnly =>
    [("namespaceId", namespaceId), ("serviceName", name), ("clusters", clusters),
      ("udpPort", portText port), ("healthyOnly", flagText healthyOnly)]
  | .batch names _ port healthyOnly findBack =>
    [("namespaceId", namespaceId), ("serviceNames", names),
      ("clusters", (textsJson listing).print), ("udpPort", portText port),
      ("healthyOnly", flagText healthyOnly), ("findBack", flagText findBack)]
  | .catalog namespaceId group clusters =>
    [("namespaceId", namespaceId), ("groupName", group), ("clusters", clusters)]

end ServiceDirectory.Query
