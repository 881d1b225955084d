import ServiceDirectory.Directory.Basic

/-!
# Refreshing and looking up services

A refresh asks the backend and takes in the documents of its reply, each on its
own; a failed query, a blank reply and a malformed one leave everything as it is.
A lookup answers from the store, and refreshes first what it does not find.
-/

namespace ServiceDirectory.Directory

/-- Take in what arrives during a query; the reply, unless it failed or is blank. -/
def await (d : Directory) (answer : Answer) : Option String × Directory :=
  (answer.reply.filter (!Text.allBlank ·), d.receiveAll answer.meanwhile)

/-- The end of a query for one service. -/
def settleSingle (d : Directory) (answer : Answer) : Directory :=
  match d.await answer with
  | (some text, d) => (d.receive ⟨text, answer.conditions 0⟩).2
  | (none, d) => d

/-- The documents of a batched reply that are not empty, each with what it meets. -/
def batchArrivals (answer : Answer) (documents : List String) : List Arrival :=
  (documents.mapIdx fun i text => (⟨text, answer.conditions i⟩ : Arrival)).filter
    (!·.text.isEmpty)

/-- The end of a query for several services. -/
def settleBatch (d : Directory) (answer : Answer) : Directory :=
  match d.await answer with
  | (some text, d) =>
    match parseBatch? text with
    | some documents => d.receiveAll (batchArrivals answer documents)
    | none => d
  | (none, d) => d

def singleQuery (d : Directory) (name clusters : String) : Query :=
  .single name clusters d.policy.pushPort false

def batchQuery (d : Directory) (names : List String) (clusters : KeyMap String String)
    (findBack : Bool) : Query :=
  .batch (Text.join ',' names) clusters d.policy.pushPort false findBack

/-- Ask for one service and take in the reply. -/
def refresh (d : Directory) (backend : Backend) (name clusters : String) : Directory :=
  let query := d.singleQuery name clusters
  (d.record (.asked query)).settleSingle (backend query)

/-- Ask for several services at once and take in the documents of the reply. -/
def refreshAll (d : Directory) (backend : Backend) (names : List String)
    (clusters : KeyMap String String) (findBack : Bool) : Directory :=
  let query := d.batchQuery names clusters findBack
  (d.record (.asked query)).settleBatch (backend query)

/-- Put an unstamped placeholder in the store. -/
def putPlaceholder (d : Directory) (name clusters : String) : Directory :=
  { d with
    store := d.store.set (ServiceKey.of name clusters) (Service.placeholder name clusters) }

/-- The snapshot of a service; one that is not known is refreshed first, behind a placeholder. -/
def lookup (d : Directory) (backend : Backend) (name clusters : String) : Service × Directory :=
  let key := ServiceKey.of name clusters
  match d.store.get? key with
  | some service => (service, d)
  | none =>
    let d := (d.putPlaceholder name clusters).refresh backend name clusters
    ((d.store.get? key).getD (Service.placeholder name clusters), d)

/-- The clusters wanted of a service, all of them unless the map names some. -/
def clustersFor (clusters : KeyMap String String) (name : String) : String :=
  (clusters.get? name).getD ""

/--
The placeholders of the services among `names` that are in the store, which they
replace there; with `findBack`, of the first such service only.
-/
def collect (d : Directory) (clusters : KeyMap String String) (findBack : Bool) :
    List String → List Service × Directory
  | [] => ([], d)
  | name :: rest =>
    let wanted := clustersFor clusters name
    if d.store.contains (ServiceKey.of name wanted) then
      let d := d.putPlaceholder name wanted
      if findBack then ([Service.placeholder name wanted], d)
      else
        let (found, d) := d.collect clusters findBack rest
        (Service.placeholder name wanted :: found, d)
    else d.collect clusters findBack rest

/--
Several services at once, after an empty entry. If none of them is in the store,
one refresh of all of them comes first.
-/
def lookupAll (d : Directory) (backend : Backend) (names : List String)
    (clusters : KeyMap String String) (findBack : Bool) : List Service × Directory :=
  let (found, d) := d.collect clusters findBack names
  if found.isEmpty then
    let d := d.refreshAll backend names clusters findBack
    let (found, d) := d.collect clusters findBack names
    ({} :: found, d)
  else ({} :: found, d)

/-- All services of a namespace and group as the backend tells them; none if it does not. -/
def catalog (d : Directory) (backend : Backend) (namespaceId group clusters : String) :
    List Service × Directory :=
  let query := Query.catalog namespaceId group clusters
  let (reply, d) := (d.record (.asked query)).await (backend query)
  ((reply.bind parseCatalog?).getD [], d)

end ServiceDirectory.Directory
