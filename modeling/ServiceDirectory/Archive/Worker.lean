import ServiceDirectory.Archive.Basic

/-!
# The archive worker

One worker owns the archive and takes commands from a queue, in the order in
which they were sent. A shutdown ends it: commands that are still queued then,
and all that are sent later, find the channel closed.
-/

namespace ServiceDirectory

namespace Archive

inductive Command where
  | write (service : Service)
  | readAll
  | shutdown

/-- What can come of a command. -/
inductive WorkerError where
  | archive (cause : ArchiveError)
  | channelClosed
  deriving DecidableEq

def WorkerError.message : WorkerError → String
  | .archive cause => cause.message
  | .channelClosed => "channel closed"

/-- The answer to a command. -/
inductive Reply where
  | written (result : Except WorkerError Unit)
  | readings (result : Except WorkerError (KeyMap ServiceKey Service))
  | stopped (result : Except WorkerError Unit)

/-- The answer to a command that finds the channel closed. -/
def Command.refused : Command → Reply
  | .write _ => .written (.error .channelClosed)
  | .readAll => .readings (.error .channelClosed)
  | .shutdown => .stopped (.error .channelClosed)

/-- Whether whoever sends a command waits for the worker's answer; a shutdown is only sent. -/
def Command.awaits : Command → Bool
  | .shutdown => false
  | _ => true

/-- The archive with its worker: running and working off its queue, or ended. -/
structure Worker where
  archive : Archive := {}
  running : Bool := true

namespace Worker

/-- Carry out one command. -/
def execute (worker : Worker) (command : Command) : Reply × Worker :=
  if worker.running then
    match command with
    | .write s =>
      let (result, archive) := worker.archive.write s
      (.written (result.mapError .archive), { worker with archive })
    | .readAll =>
      let (result, archive) := worker.archive.read
      (.readings (result.mapError .archive), { worker with archive })
    | .shutdown => (.stopped (.ok ()), { worker with running := false })
  else (command.refused, worker)

/-- Carry out one command. What the disk fails on leaves the archive as it is. -/
def attempt (worker : Worker) (command : Command) (fault : Option ArchiveError) : Reply × Worker :=
  match command, fault with
  | .write _, some cause => (.written (.error (.archive cause)), worker)
  | .readAll, some cause => (.readings (.error (.archive cause)), worker)
  | command, _ => worker.execute command

end Worker

end Archive

end ServiceDirectory
