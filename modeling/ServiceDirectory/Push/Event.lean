import ServiceDirectory.Push.Packet

/-!
# Events of the push channel

A datagram becomes an event for the directory, and is acknowledged only if the
event was accepted at the other end of the channel.
-/

namespace ServiceDirectory.Push

/-- What a packet asks of the directory. -/
inductive Event where
  | service (text : String)
  | dump
  deriving DecidableEq

def Packet.event? (p : Packet) : Option Event :=
  match p.request with
  | .service => some (.service p.data)
  | .dump => some .dump
  | .unknown => none

/-- What the handling of a datagram sent out. -/
structure Handled where
  ack : Option Ack := none
  /-- The event that the other end of the queue accepted. -/
  event : Option Event := none
  deriving DecidableEq

/--
Handle a datagram, when the other end of the queue accepts events or not, and
answers a dump request with a text or not at all. What was not accepted is not
acknowledged.
-/
def handle (accepts : Bool) (dump : Option String) (datagram : List UInt8) : Handled :=
  match Packet.ofBytes? datagram with
  | none => {}
  | some p =>
    let ack := Ack.ofPacket p
    match p.event? with
    | none => { ack := some ack }
    | some event =>
      if !accepts then {}
      else
        match event with
        | .service _ => { ack := some ack, event := some event }
        | .dump => { ack := some { ack with data := dump.getD "" }, event := some event }

end ServiceDirectory.Push
