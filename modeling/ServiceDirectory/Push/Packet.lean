import ServiceDirectory.Service.Codec

/-!
# Push packets and their acknowledgements

A packet carries a service document or asks for a dump of the store. It is
acknowledged by a packet that names what kind it was and repeats its time.
-/

namespace ServiceDirectory.Push

/-- What the backend sends. -/
structure Packet where
  kind : String
  data : String := ""
  lastRefTime : Millis := 0
  deriving DecidableEq

/-- What is sent back. -/
structure Ack where
  kind : String
  lastRefTime : Millis
  data : String := ""
  deriving DecidableEq

/-- What a packet asks for. -/
inductive Request where
  /-- Take over the service document in the data. -/
  | service
  /-- Answer with a dump of the store. -/
  | dump
  | unknown
  deriving DecidableEq

namespace Packet

def fields : List String := ["type", "data", "lastRefTime"]

def ofJson? (value : Json) : Option Packet := do
  let r ← Json.Record.ofJson? fields value
  let kind ← r.required "type" Json.text?
  let data ← r.optional "data" Json.text? ""
  let lastRefTime ← r.optional "lastRefTime" millis? 0
  some { kind, data, lastRefTime }

/-- The packet in a datagram. -/
def ofBytes? (datagram : List UInt8) : Option Packet := (Json.parseBytes? datagram).bind ofJson?

def toJson (p : Packet) : Json :=
  Json.record
    [("type", Json.ofString p.kind), ("data", Json.ofString p.data),
      ("lastRefTime", Json.ofNat p.lastRefTime.toNat)]

def print (p : Packet) : String := p.toJson.print

def request (p : Packet) : Request :=
  if p.kind = "dom" ∨ p.kind = "service" then .service
  else if p.kind = "dump" then .dump
  else .unknown

end Packet

namespace Ack

/-- The kind of acknowledgement for a request. -/
def kindOf : Request → String
  | .service => "push-ack"
  | .dump => "dump-ack"
  | .unknown => "unknown-ack"

/-- The acknowledgement of a packet, without data. -/
def ofPacket (p : Packet) : Ack := { kind := kindOf p.request, lastRefTime := p.lastRefTime }

def toJson (a : Ack) : Json :=
  Json.record
    [("type", Json.ofString a.kind), ("lastRefTime", Json.ofNat a.lastRefTime.toNat),
      ("data", Json.ofString a.data)]

def print (a : Ack) : String := a.toJson.print

end Ack

end ServiceDirectory.Push
