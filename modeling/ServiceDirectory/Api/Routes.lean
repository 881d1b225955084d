import ServiceDirectory.Api.Request
import ServiceDirectory.Directory.Lookup

/-!
# The HTTP interface

The lookups of the directory as resources that are read with GET, or with HEAD
for everything but the body. The method is looked at before the name and the
query, and a request that is turned down touches nothing.
-/

namespace ServiceDirectory.Api

def json (value : Json) : Response :=
  { status := 200, contentType := some "application/json", body := value.print }

def turnDown (reason : BadRequest) : Response :=
  { status := 400, contentType := some "text/plain; charset=utf-8", body := reason.message }

def notFound : Response := { status := 404 }

def methodNotAllowed : Response := { status := 405, allow := some "GET,HEAD" }

/-- The port for pushes, and how many services the store holds. -/
def pushStatus (d : Directory) : Json :=
  Json.record
    [("pushPort", Json.ofNat d.policy.pushPort.toNat), ("cachedServices", Json.ofNat d.store.size)]

/-- The clusters wanted of each service, none if the text is no map of texts. -/
def clustersMap (text : Option String) : KeyMap String String :=
  ((text.bind Json.parse?).bind textMap?).getD KeyMap.empty

/-- What a query for one service wants. -/
def readService (raw query : String) : Except BadRequest (String × String) := do
  let name ← decodeName raw
  let fields ← queryFields ["clusters"] [] query
  return (name, fields.text "clusters")

structure Batch where
  names : List String
  clusters : KeyMap String String
  findBack : Bool

/-- What a query for several services wants. -/
def readBatch (query : String) : Except BadRequest Batch := do
  let fields ← queryFields ["names", "clusters", "findBack"] ["findBack"] query
  match fields.lookup "names" with
  | none => .error (.missingField "names")
  | some names =>
    return {
      names := Text.parts ',' names
      clusters := clustersMap (fields.lookup "clusters")
      findBack := fields.text "findBack" == "true" }

/-- What a query for a catalog wants: a namespace, a group and clusters. -/
def readCatalog (query : String) : Except BadRequest (String × String × String) := do
  let fields ← queryFields ["namespace", "group", "clusters"] [] query
  return (fields.text "namespace", fields.text "group", fields.text "clusters")

/-- The answer to a GET request. -/
def get (d : Directory) (backend : Backend) (route : Route) (query : String) :
    Response × Directory :=
  match route with
  | .push => (json (pushStatus d), d)
  | .service raw =>
    match readService raw query with
    | .error reason => (turnDown reason, d)
    | .ok (name, clusters) =>
      let (service, d) := d.lookup backend name clusters
      (json service.toJson, d)
  | .services =>
    match readBatch query with
    | .error reason => (turnDown reason, d)
    | .ok batch =>
      let (services, d) := d.lookupAll backend batch.names batch.clusters batch.findBack
      (json (.array (services.map Service.toJson)), d)
  | .catalog =>
    match readCatalog query with
    | .error reason => (turnDown reason, d)
    | .ok (namespaceId, group, clusters) =>
      let (services, d) := d.catalog backend namespaceId group clusters
      (json (.array (services.map Service.toJson)), d)

/-- The answer to a request. -/
def respond (d : Directory) (backend : Backend) (request : Request) : Response × Directory :=
  let target := Target.ofString request.target
  match route? target.path with
  | none => (notFound, d)
  | some route =>
    if request.method = "GET" then get d backend route target.query
    else if request.method = "HEAD" then
      let (response, d) := get d backend route target.query
      ({ response with body := "" }, d)
    else (methodNotAllowed, d)

end ServiceDirectory.Api
