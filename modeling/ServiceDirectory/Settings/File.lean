import ServiceDirectory.Settings.Basic
import ServiceDirectory.Text.Utf8
import ServiceDirectory.Toml.Document

/-!
# The settings file

Settings are read from a TOML document with a table for each group. What is left
out has its default and unknown names are passed over, but a known name must have
a value of its kind. A group may also be given as an array of its values in
order, where what is left over counts for nothing.
-/

namespace ServiceDirectory

namespace Toml

/-- The values of a group by the names of its fields. -/
def group? (fields : List String) : Value → Option Members
  | .table _ members => some members
  | .array items => some (fields.zip items)
  | .tables elements => some (fields.zip (elements.map (.table .header)))
  -- A time has parts, none of which has the name of a field.
  | .time => some []
  | _ => none

def Value.text? : Value → Option String
  | .string text => some text
  | _ => none

def Value.flag? : Value → Option Bool
  | .bool value => some value
  | _ => none

/-- A number of 64 bits that is not negative. -/
def Value.natural? : Value → Option UInt64
  | .integer n => if 0 ≤ n then some (UInt64.ofNat n.toNat) else none
  | _ => none

/-- A field of a group, or its default if it is left out. -/
def field {α : Type} (members : Members) (name : String) (read : Value → Option α) (default : α) :
    Option α :=
  match members.lookup name with
  | some value => read value
  | none => some default

end Toml

open Toml (Members field)

namespace Settings

def directoryFields : List String :=
  ["cache_dir", "update_thread_num", "not_load_cache_at_start", "update_cache_when_empty",
    "refresh_interval_ms"]

def backendFields : List String := ["base_url", "namespace", "timeout_ms"]

def listenFields : List String := ["listen"]

def readDirectory (group : Toml.Value) : Option DirectorySettings := do
  let default : DirectorySettings := {}
  let m ← Toml.group? directoryFields group
  let cacheDir ← field m "cache_dir" Toml.Value.text? default.cacheDir
  let updateThreads ← field m "update_thread_num" Toml.Value.natural? default.updateThreads
  let startEmpty ← field m "not_load_cache_at_start" Toml.Value.flag? default.startEmpty
  let applyEmpty ← field m "update_cache_when_empty" Toml.Value.flag? default.applyEmpty
  let refreshInterval ← field m "refresh_interval_ms" Toml.Value.natural? default.refreshInterval
  some { cacheDir, updateThreads, startEmpty, applyEmpty, refreshInterval }

def readBackend (group : Toml.Value) : Option BackendSettings := do
  let default : BackendSettings := {}
  let m ← Toml.group? backendFields group
  let baseUrl ← field m "base_url" Toml.Value.text? default.baseUrl
  let namespaceId ← field m "namespace" Toml.Value.text? default.namespaceId
  let timeout ← field m "timeout_ms" Toml.Value.natural? default.timeout
  some { baseUrl, namespaceId, timeout }

/-- An address to listen on. -/
def readListen (default : String) (group : Toml.Value) : Option String := do
  let m ← Toml.group? listenFields group
  field m "listen" Toml.Value.text? default

def ofToml? (m : Members) : Option Settings := do
  let default : Settings := {}
  let directory ← field m "reactor" readDirectory default.directory
  let backend ← field m "server" readBackend default.backend
  let pushListen ← field m "push" (readListen default.pushListen) default.pushListen
  let apiListen ← field m "api" (readListen default.apiListen) default.apiListen
  some { directory, backend, pushListen, apiListen }

/-- The settings of a document. -/
def parse? (document : String) : Option Settings := (Toml.parse? document).bind ofToml?

/-- Why a file gives no settings. -/
inductive LoadError where
  /-- There is no such file, or it is no text. -/
  | read (path : String)
  | parse (path : String)
  deriving DecidableEq

def LoadError.message : LoadError → String
  | .read path => "Failed to read config file: " ++ path
  | .parse path => "Failed to parse config file: " ++ path

/-- The settings of a file, given its bytes if it can be read. -/
def load (path : String) (contents : Option (List UInt8)) : Except LoadError Settings :=
  match contents.bind Text.Utf8.text? with
  | none => .error (.read path)
  | some document =>
    match parse? document with
    | none => .error (.parse path)
    | some settings => .ok settings

end Settings

end ServiceDirectory
