import ServiceDirectory.Backend.Query
import ServiceDirectory.Service.Reply
import ServiceDirectory.Store

/-!
# The directory

The directory is the local view of which instances back each service. Every
document, however it came, is judged against the snapshot the store holds: it is
dropped, taken over silently, or taken over, written to disk and published. What
happens is recorded as events, latest last.
-/

namespace ServiceDirectory

/-- What became of a document. -/
inductive Verdict where
  /-- It is no service document, or one without a name. -/
  | rejected
  /-- It has no hosts, and a known service must not lose its hosts. -/
  | ignoredEmpty
  /-- It has the hosts of the snapshot already held: stored and stamped, not published. -/
  | unchanged
  /-- It is new: stored and stamped, written to disk and published. -/
  | changed
  deriving DecidableEq

/-- Something the directory did, with the store as others find it at that moment. -/
inductive Event where
  | judged (text : String) (clock : Millis) (verdict : Verdict)
  | asked (query : Query)
  | wrote (service : Service) (succeeded : Bool) (seen : Store)
  | published (service : Service) (sinkFailed : Bool) (seen : Store)
  deriving DecidableEq

/-- How a directory is set up. -/
structure Policy where
  /-- Whether a document without hosts may replace a snapshot. -/
  applyEmpty : Bool := false
  /-- The port on which pushes are expected. -/
  pushPort : UInt16 := 0
  deriving DecidableEq, Inhabited

structure Directory where
  policy : Policy := {}
  store : Store := {}
  events : List Event := []
  deriving DecidableEq

namespace Directory

def record (d : Directory) (event : Event) : Directory := { d with events := d.events ++ [event] }

/-- What a service document is, given what the store holds. -/
def judge (d : Directory) (service : Service) : Verdict :=
  match d.store.get? service.key with
  | none => .changed
  | some old =>
    if !d.policy.applyEmpty && service.hosts.isEmpty then .ignoredEmpty
    else if Instance.sameHosts old.hosts service.hosts then .unchanged
    else .changed

/-- Take over a snapshot at a time. -/
def commit (d : Directory) (service : Service) (clock : Millis) : Directory :=
  { d with store := d.store.commit service.key service clock }

/-- Write a snapshot to disk, then hand it to the sink; neither's failure matters any further. -/
def announce (d : Directory) (service : Service) (c : Conditions) : Directory :=
  (d.record (.wrote service (!c.writeFails) d.store)).record
    (.published service c.sinkFails d.store)

/-- Take in a document: judge it, and do what the verdict demands. -/
def receive (d : Directory) (arrival : Arrival) : Verdict × Directory :=
  let c := arrival.conditions
  match Service.parse? arrival.text with
  | none => (.rejected, d.record (.judged arrival.text c.clock .rejected))
  | some service =>
    let verdict := d.judge service
    let d := d.record (.judged arrival.text c.clock verdict)
    match verdict with
    | .rejected | .ignoredEmpty => (verdict, d)
    | .unchanged => (verdict, d.commit service c.clock)
    | .changed => (verdict, (d.commit service c.clock).announce service c)

/-- Take in documents one after another. -/
def receiveAll (d : Directory) (arrivals : List Arrival) : Directory :=
  arrivals.foldl (fun d a => (d.receive a).2) d

/-- Copy what was read from disk into the store; the copies carry no stamp. -/
def load (d : Directory) (readings : Option (KeyMap ServiceKey Service)) : Directory :=
  match readings with
  | some map =>
    { d with store := map.entries.foldl (fun store e => store.set e.1 e.2) d.store }
  | none => d

/-- A new directory, filled from disk where that is wanted and reading succeeds. -/
def start (policy : Policy) (loadFromDisk : Bool)
    (readings : Option (KeyMap ServiceKey Service)) : Directory :=
  if loadFromDisk then ({ policy } : Directory).load readings else { policy }

/-- The snapshots of a copy of the entries by their rendered keys. Of keys that render alike the one
that the copy has last counts. -/
def rendering (copy : List (ServiceKey × Service)) : KeyMap String Service :=
  KeyMap.ofList (copy.map fun e => (e.1.render, e.2))

/-- One JSON object of snapshots by their rendered keys. -/
def printMembers (members : List (String × Service)) : String :=
  (Json.record (members.map fun e => (e.1, e.2.toJson))).print

/-- A text that a dump may be. In which order the entries are copied and the members are written is
not specified. -/
def IsDump (d : Directory) (text : String) : Prop :=
  ∃ copy members, d.store.IsCopy copy ∧ members.Perm (rendering copy).entries ∧
    text = printMembers members

/-- The snapshots by their rendered keys. -/
def rendered (d : Directory) : KeyMap String Service := rendering d.store.items

/-- The dump that has both in key order. -/
def dump (d : Directory) : String := printMembers d.rendered.entries

theorem isDump_dump (d : Directory) : d.IsDump d.dump :=
  ⟨d.store.items, d.rendered.entries, d.store.isCopy_items, .refl _, rfl⟩

end Directory

end ServiceDirectory
