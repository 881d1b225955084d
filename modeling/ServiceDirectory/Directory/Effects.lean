import ServiceDirectory.Archive.Worker
import ServiceDirectory.Directory.Basic
import ServiceDirectory.Listeners

/-!
# What the directory's events lead to

The disk holds what was written successfully, and the listeners of a service
hear of every snapshot that is published, unless the sink failed before it came
to them.
-/

namespace ServiceDirectory

/-- The archive worker after an event. -/
def Archive.Worker.follow (worker : Archive.Worker) : Event → Archive.Worker
  | .wrote service true _ => (worker.execute (.write service)).2
  | _ => worker

/-- The listeners that an event calls, and the registry after it. -/
def Listeners.follow (registry : Listeners) : Event → List Listeners.Call × Listeners
  | .published service false _ => registry.notify service
  | _ => ([], registry)

end ServiceDirectory
