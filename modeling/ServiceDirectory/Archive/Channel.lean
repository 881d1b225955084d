import ServiceDirectory.Archive.Worker

/-!
# The archive's command channel

Any number of clients send commands into one queue, and the worker takes them from
its head. A client waits for the answer, unless its command is a shutdown, with which
it goes on as soon as the queue has it. When the worker takes a shutdown it ends and
lets go of the queue: commands that still wait in it, and all that are sent later, find
the channel closed. This is one step. The worker touches nothing between the two, so a
command that comes in then is as good as one that came in before and still waits.
-/

namespace ServiceDirectory.Archive

/-- A command that was sent, with its number. -/
structure Call where
  number : Nat
  command : Command

/-- A call that the worker took, and how the disk failed on it, if it did. -/
structure Turn where
  call : Call
  fault : Option ArchiveError

structure Channel where
  worker : Worker := {}
  /-- The calls that wait to be taken. -/
  queue : List Call := []
  /-- How many commands were sent so far. -/
  sent : Nat := 0
  /-- The answers given so far, latest last. -/
  answers : List (Nat × Reply) := []
  /-- All calls that the queue accepted, also those that it does not hold any more. -/
  accepted : List Call := []
  /-- All calls that the worker took. -/
  turns : List Turn := []

namespace Channel

/-- How many calls may wait. -/
def capacity : Nat := 256

def answer (ch : Channel) (number : Nat) (reply : Reply) : Channel :=
  { ch with answers := ch.answers ++ [(number, reply)] }

/-- A client sends a command, for which there has to be room in the queue. -/
def send? (ch : Channel) (command : Command) : Option Channel :=
  let call : Call := ⟨ch.sent, command⟩
  let ch := { ch with sent := ch.sent + 1 }
  if ch.worker.running then
    if capacity ≤ ch.queue.length then none
    else
      let ch := { ch with queue := ch.queue ++ [call], accepted := ch.accepted ++ [call] }
      some (if command.awaits then ch else ch.answer call.number (.stopped (.ok ())))
  else some (ch.answer call.number command.refused)

/-- Turn away whatever waits. -/
def close (ch : Channel) : Channel :=
  let waiting := ch.queue.filter (·.command.awaits)
  { ch with
    queue := []
    answers := ch.answers ++ waiting.map fun call => (call.number, call.command.refused) }

/-- The worker takes the call that waits longest. -/
def serve? (ch : Channel) (fault : Option ArchiveError) : Option Channel :=
  match ch.worker.running, ch.queue with
  | true, call :: queue =>
    let (reply, worker) := ch.worker.attempt call.command fault
    let turn : Turn := ⟨call, fault⟩
    let ch := { ch with worker, queue, turns := ch.turns ++ [turn] }
    some (if call.command.awaits then ch.answer call.number reply else ch.close)
  | _, _ => none

/-- What clients and the worker can do. -/
inductive Step where
  | send (command : Command)
  /-- The worker takes a call, on which the disk may fail. -/
  | serve (fault : Option ArchiveError)

/-- The channel after a step, if the step is possible. -/
def step? (ch : Channel) : Step → Option Channel
  | .send command => ch.send? command
  | .serve fault => ch.serve? fault

/-- The channel after steps one after another, if all of them are possible. -/
def run? (ch : Channel) (steps : List Step) : Option Channel := steps.foldlM step? ch

/-- The answer to a command, if it is there. -/
def answer? (ch : Channel) (number : Nat) : Option Reply := ch.answers.lookup number

/-- What a single client does: send a command, and wait for its answer. -/
def call (ch : Channel) (command : Command) : Option Reply × Channel :=
  let number := ch.sent
  let ch := (ch.step? (.send command)).getD ch
  let ch := (ch.step? (.serve none)).getD ch
  (ch.answer? number, ch)

end Channel

end ServiceDirectory.Archive
