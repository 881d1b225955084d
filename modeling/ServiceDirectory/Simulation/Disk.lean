import ServiceDirectory.Directory.Effects

/-!
# Disks for trials

In a trial the snapshots are kept by the archive behind its worker, or in memory
as they are.
-/

namespace ServiceDirectory.Simulation

inductive Disk where
  | archive (worker : Archive.Worker)
  | memory (entries : KeyMap ServiceKey Service)

namespace Disk

def write (disk : Disk) (service : Service) : Disk :=
  match disk with
  | .archive worker => .archive (worker.execute (.write service)).2
  | .memory entries => .memory (entries.insert service.key service)

/-- All snapshots by key. -/
def readAll (disk : Disk) : Except Archive.WorkerError (KeyMap ServiceKey Service) :=
  match disk with
  | .memory entries => .ok entries
  | .archive worker =>
    match (worker.execute .readAll).1 with
    | .readings result => result
    | _ => .error .channelClosed

/-- Shut the archive's worker down; what is in memory cannot be. -/
def shutdown (disk : Disk) : Disk :=
  match disk with
  | .archive worker => .archive (worker.execute .shutdown).2
  | .memory entries => .memory entries

/-- The disk after an event of the directory. -/
def follow (disk : Disk) (event : Event) : Disk :=
  match disk, event with
  | .archive worker, event => .archive (worker.follow event)
  | .memory _, .wrote service true _ => disk.write service
  | .memory entries, _ => .memory entries

end Disk

end ServiceDirectory.Simulation
