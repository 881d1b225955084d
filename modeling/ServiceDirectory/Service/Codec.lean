import ServiceDirectory.Json.Printer
import ServiceDirectory.Json.Reader
import ServiceDirectory.Json.Record
import ServiceDirectory.Service

/-!
# Services as JSON

Written, a service has all its members in a fixed order and its metadata by key.
Read, only the address and port of an instance are required, everything else has
a default, and unknown members are passed over.
-/

namespace ServiceDirectory

/-- A map of texts; of a key that occurs again the last value counts. -/
def textMap? (value : Json) : Option (KeyMap String String) := do
  let members ← value.members?
  let entries ← members.mapM fun m => m.2.text?.map (m.1, ·)
  some (KeyMap.ofList entries)

/-- An object of texts, with its members in order. -/
def textsJson (entries : List (String × String)) : Json :=
  Json.record (entries.map fun e => (e.1, Json.ofString e.2))

def textMapJson (map : KeyMap String String) : Json := textsJson map.entries

def millis? (value : Json) : Option Millis := (value.natBelow? UInt64.size).map UInt64.ofNat

namespace Instance

/-- The members of an instance in the order in which they are written. -/
def fields : List String :=
  ["instanceId", "ip", "port", "weight", "healthy", "enabled", "ephemeral", "clusterName",
    "serviceName", "metadata"]

def toJson (i : Instance) : Json :=
  Json.record
    [("instanceId", Json.ofString i.instanceId), ("ip", Json.ofString i.ip),
      ("port", Json.ofNat i.port.toNat), ("weight", Json.ofDouble i.weight),
      ("healthy", .bool i.healthy), ("enabled", .bool i.enabled),
      ("ephemeral", .bool i.ephemeral), ("clusterName", Json.ofString i.clusterName),
      ("serviceName", Json.ofString i.serviceName), ("metadata", textMapJson i.metadata)]

def ofJson? (value : Json) : Option Instance := do
  let r ← Json.Record.ofJson? fields value
  let instanceId ← r.optional "instanceId" Json.text? ""
  let ip ← r.required "ip" Json.text?
  let port ← r.required "port" (Json.natBelow? UInt16.size)
  let weight ← r.optional "weight" Json.double? Binary64.one
  let healthy ← r.optional "healthy" Json.bool? true
  let enabled ← r.optional "enabled" Json.bool? true
  let ephemeral ← r.optional "ephemeral" Json.bool? false
  let clusterName ← r.optional "clusterName" Json.text? ""
  let serviceName ← r.optional "serviceName" Json.text? ""
  let metadata ← r.optional "metadata" textMap? KeyMap.empty
  some { instanceId, ip, port := UInt16.ofNat port, weight, healthy, enabled, ephemeral,
         clusterName, serviceName, metadata }

/-- An array of instances. -/
def listOfJson? (value : Json) : Option (List Instance) := do
  let items ← value.items?
  items.mapM ofJson?

end Instance

namespace Service

/-- The members of a service in the order in which they are written. -/
def fields : List String :=
  ["name", "groupName", "clusters", "cacheMillis", "hosts", "lastRefTime", "checksum"]

def toJson (s : Service) : Json :=
  Json.record
    [("name", Json.ofString s.name), ("groupName", Json.ofString s.groupName),
      ("clusters", Json.ofString s.clusters), ("cacheMillis", Json.ofNat s.cacheMillis.toNat),
      ("hosts", .array (s.hosts.map Instance.toJson)),
      ("lastRefTime", Json.ofNat s.lastRefTime.toNat), ("checksum", Json.ofString s.checksum)]

def ofJson? (value : Json) : Option Service := do
  let r ← Json.Record.ofJson? fields value
  let name ← r.optional "name" Json.text? ""
  let groupName ← r.optional "groupName" Json.text? ""
  let clusters ← r.optional "clusters" Json.text? ""
  let cacheMillis ← r.optional "cacheMillis" millis? defaultCacheMillis
  let hosts ← r.optional "hosts" Instance.listOfJson? []
  let lastRefTime ← r.optional "lastRefTime" millis? 0
  let checksum ← r.optional "checksum" Json.text? ""
  some { name, groupName, clusters, cacheMillis, hosts, lastRefTime, checksum }

/-- The document of a service. -/
def print (s : Service) : String := s.toJson.print

end Service

end ServiceDirectory
