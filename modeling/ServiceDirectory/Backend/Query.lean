import ServiceDirectory.Service

/-!
# Questions to the backend

The backend can be asked for one service, for several services at once, and for
all services of a namespace and group. The first two tell it the port on which
pushes are expected.
-/

namespace ServiceDirectory

inductive Query where
  | single (name clusters : String) (pushPort : UInt16) (healthyOnly : Bool)
  /-- The names are joined by commas; the clusters are given by service name. -/
  | batch (names : String) (clusters : KeyMap String String) (pushPort : UInt16)
      (healthyOnly findBack : Bool)
  | catalog (namespaceId group clusters : String)
  deriving DecidableEq

/-- What a document meets when it is taken in: the time, and whether disk and sink fail on it. -/
structure Conditions where
  clock : Millis
  writeFails : Bool := false
  sinkFails : Bool := false
  deriving DecidableEq, Inhabited

/-- A document that arrives. -/
structure Arrival where
  text : String
  conditions : Conditions
  deriving DecidableEq

/-- How a query went. -/
structure Answer where
  /-- Documents that arrived by other ways while the query was under way. -/
  meanwhile : List Arrival := []
  /-- The reply text; `none` if the query failed. -/
  reply : Option String
  /-- What the documents of the reply meet, by their position in it. -/
  conditions : Nat → Conditions

/-- How each query goes. -/
abbrev Backend := Query → Answer

end ServiceDirectory
