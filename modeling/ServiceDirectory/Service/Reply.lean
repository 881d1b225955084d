import ServiceDirectory.Service.Codec

/-!
# The replies of the backend

A single reply is one service document, a catalog reply an array of service
documents, and a batched reply an array of texts each of which is a document of
its own. A document without a service name counts only in a catalog.
-/

namespace ServiceDirectory

/-- The service of a document, if the document decodes at all. -/
def Service.decode? (text : String) : Option Service := (Json.parse? text).bind Service.ofJson?

/-- The service of a single reply; a blank text or one without a service name has none. -/
def Service.parse? (text : String) : Option Service :=
  if Text.allBlank text then none
  else (Service.decode? text).filter (!·.name.isEmpty)

/-- The services of a catalog reply. -/
def parseCatalog? (text : String) : Option (List Service) := do
  let value ← Json.parse? text
  let items ← value.items?
  items.mapM Service.ofJson?

/-- The documents of a batched reply. -/
def parseBatch? (text : String) : Option (List String) := do
  let value ← Json.parse? text
  let items ← value.items?
  items.mapM Json.text?

end ServiceDirectory
