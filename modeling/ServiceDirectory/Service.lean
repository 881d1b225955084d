import ServiceDirectory.Instance
import ServiceDirectory.ServiceKey

/-!
# Service snapshots

A snapshot is what the backend says of one service at one time. It is never
changed; a refresh puts another one in its place.
-/

namespace ServiceDirectory

/-- Milliseconds, also as a time since the epoch. -/
abbrev Millis := UInt64

structure Service where
  name : String := ""
  groupName : String := ""
  /-- The clusters as the sender spelled them. -/
  clusters : String := ""
  /-- How long the snapshot counts as fresh. -/
  cacheMillis : Millis := 0
  hosts : List Instance := []
  lastRefTime : Millis := 0
  checksum : String := ""
  deriving DecidableEq, Inhabited

namespace Service

/-- The freshness of a service whose sender names none. -/
def defaultCacheMillis : Millis := 1000

/-- The entry for a service that is not resolved yet: no hosts. -/
def placeholder (name clusters : String) : Service :=
  { name, clusters, cacheMillis := defaultCacheMillis }

def key (s : Service) : ServiceKey := ServiceKey.of s.name s.clusters

end Service

end ServiceDirectory
