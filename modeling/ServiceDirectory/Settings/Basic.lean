import ServiceDirectory.Directory.Basic
import ServiceDirectory.Refresh.Width

/-!
# Settings

What can be set of the daemon, with the values that hold where nothing is set.
-/

namespace ServiceDirectory

/-- The local directory: where it is kept on disk and how it is refreshed. -/
structure DirectorySettings where
  cacheDir : String := "/var/lib/naming-reactor"
  /-- How many refreshes may run at once; zero stands for the default. -/
  updateThreads : UInt64 := 20
  /-- Whether to start without what is on disk. -/
  startEmpty : Bool := false
  /-- Whether a document without hosts may replace a snapshot. -/
  applyEmpty : Bool := false
  /-- The time between two passes of the scheduler. -/
  refreshInterval : Millis := 1000
  deriving DecidableEq, Inhabited

/-- The naming backend. -/
structure BackendSettings where
  baseUrl : String := "http://127.0.0.1:8848"
  namespaceId : String := ""
  timeout : Millis := 3000
  deriving DecidableEq, Inhabited

structure Settings where
  directory : DirectorySettings := {}
  backend : BackendSettings := {}
  /-- The address on which pushes are expected. -/
  pushListen : String := "0.0.0.0:0"
  /-- The address of the HTTP interface. -/
  apiListen : String := "127.0.0.1:8053"
  deriving DecidableEq, Inhabited

/-- The width of the scheduler's pool of permits. -/
def DirectorySettings.width (s : DirectorySettings) : Nat := Refresh.configuredWidth s.updateThreads

/-- The policy of a directory that expects pushes on a port. -/
def DirectorySettings.policy (s : DirectorySettings) (pushPort : UInt16) : Policy :=
  { applyEmpty := s.applyEmpty, pushPort }

end ServiceDirectory
