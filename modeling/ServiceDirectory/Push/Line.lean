import ServiceDirectory.Directory.Operation

/-!
# From datagrams to the directory

A receiver turns datagrams into events and acknowledges them; the events wait in
a queue, and the directory takes them in one by one. A packet that carries a
service is acknowledged as soon as its event is queued, one that asks for a dump
only when the dump is there, and until then the receiver reads nothing more.
-/

namespace ServiceDirectory.Push

/-- The most bytes of a datagram that are read. -/
def maxDatagram : Nat := 64 * 1024

/-- How many events may wait. -/
def queueCapacity : Nat := 256

/-- Datagrams not yet read, events not yet taken in, and the directory at the end. -/
structure Line where
  unread : List (List UInt8) := []
  queue : List Event := []
  /-- The acknowledgement of a dump request that is not answered yet. -/
  waiting : Option Ack := none
  acks : List Ack := []
  directory : Directory := {}

namespace Line

/-- The receiver reads the next datagram, unless it waits for a dump or the queue is full. -/
def read? (l : Line) : Option Line :=
  match l.unread, l.waiting with
  | datagram :: unread, none =>
    let l := { l with unread }
    match Packet.ofBytes? (datagram.take maxDatagram) with
    | none => some l
    | some p =>
      let ack := Ack.ofPacket p
      match p.event? with
      | none => some { l with acks := l.acks ++ [ack] }
      | some event =>
        if queueCapacity ≤ l.queue.length then none
        else
          let l := { l with queue := l.queue ++ [event] }
          match event with
          | .service _ => some { l with acks := l.acks ++ [ack] }
          | .dump => some { l with waiting := some ack }
  | _, _ => none

/-- The directory takes in the event that waits longest. -/
def ingest? (l : Line) (c : Conditions) : Option Line :=
  match l.queue with
  | [] => none
  | event :: queue =>
    let (outcome, directory) := l.directory.ingest event c
    let l := { l with queue, directory }
    match outcome with
    | .dump data =>
      let answered := (l.waiting.map fun ack => { ack with data }).toList
      some { l with waiting := none, acks := l.acks ++ answered }
    | _ => some l

/-- What receiver and directory can do. -/
inductive Step where
  | read
  | ingest (conditions : Conditions)
  /-- Something else that is asked of the directory. -/
  | perform (operation : Operation)

/-- The line after a step, if the step is possible. -/
def step? (l : Line) : Step → Option Line
  | .read => l.read?
  | .ingest c => l.ingest? c
  | .perform operation => some { l with directory := (l.directory.perform operation).2 }

/-- The line after steps one after another, if all of them are possible. -/
def run? (l : Line) (steps : List Step) : Option Line := steps.foldlM step? l

end Line

/-- What stands at the other end of the queue. -/
inductive Consumer where
  /-- The directory takes in the events. -/
  | directory
  /-- Events are accepted, but dump requests are dropped unanswered. -/
  | listener
  /-- Nothing. -/
  | none
  deriving DecidableEq

/-- What came of sending one datagram. -/
structure Exchange where
  acks : List Ack
  events : List Event
  directory : Directory

/-- Send one datagram and wait until nothing is left to do. -/
def exchange (consumer : Consumer) (d : Directory) (c : Conditions) (datagram : List UInt8) :
    Exchange :=
  let handled (accepts : Bool) : Exchange :=
    let h := handle accepts none (datagram.take maxDatagram)
    { acks := h.ack.toList, events := h.event.toList, directory := d }
  match consumer with
  | .directory =>
    let l : Line := { unread := [datagram], directory := d }
    let l := (l.step? .read).getD l
    let l := (l.step? (.ingest c)).getD l
    { acks := l.acks, events := [], directory := l.directory }
  | .listener => handled true
  | .none => handled false

end ServiceDirectory.Push
