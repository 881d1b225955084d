import ServiceDirectory.Directory.Lookup
import ServiceDirectory.Push.Event

/-!
# Runs of the directory

All that can be asked of a directory as one type, so that a history is a list
of operations with what they met.
-/

namespace ServiceDirectory

inductive Operation where
  | receive (arrival : Arrival)
  | ingest (event : Push.Event) (conditions : Conditions)
  | refresh (backend : Backend) (name clusters : String)
  | refreshAll (backend : Backend) (names : List String) (clusters : KeyMap String String)
      (findBack : Bool)
  | lookup (backend : Backend) (name clusters : String)
  | lookupAll (backend : Backend) (names : List String) (clusters : KeyMap String String)
      (findBack : Bool)
  | catalog (backend : Backend) (namespaceId group clusters : String)
  | load (readings : Option (KeyMap ServiceKey Service))

/-- What an operation gives back. -/
inductive Outcome where
  | nothing
  | verdict (verdict : Verdict)
  | service (service : Service)
  | services (services : List Service)
  | dump (text : String)
  deriving DecidableEq

namespace Directory

/-- Take in an event of the push channel. -/
def ingest (d : Directory) (event : Push.Event) (c : Conditions) : Outcome × Directory :=
  match event with
  | .service text =>
    let (v, d) := d.receive ⟨text, c⟩
    (.verdict v, d)
  | .dump => (.dump d.dump, d)

def perform (d : Directory) : Operation → Outcome × Directory
  | .receive arrival =>
    let (v, d) := d.receive arrival
    (.verdict v, d)
  | .ingest event c => d.ingest event c
  | .refresh backend name clusters => (.nothing, d.refresh backend name clusters)
  | .refreshAll backend names clusters findBack =>
    (.nothing, d.refreshAll backend names clusters findBack)
  | .lookup backend name clusters =>
    let (s, d) := d.lookup backend name clusters
    (.service s, d)
  | .lookupAll backend names clusters findBack =>
    let (l, d) := d.lookupAll backend names clusters findBack
    (.services l, d)
  | .catalog backend namespaceId group clusters =>
    let (l, d) := d.catalog backend namespaceId group clusters
    (.services l, d)
  | .load readings => (.nothing, d.load readings)

/-- The directory after a history. -/
def after (d : Directory) (history : List Operation) : Directory :=
  history.foldl (fun d operation => (d.perform operation).2) d

theorem after_concat (d : Directory) (history : List Operation) (operation : Operation) :
    d.after (history ++ [operation]) = ((d.after history).perform operation).2 := by
  rw [after, List.foldl_append]
  rfl

end Directory

end ServiceDirectory
