import ServiceDirectory.Directory.Lookup
import ServiceDirectory.Refresh.Scheduler
import ServiceDirectory.Simulation.Script

/-!
# A scheduler on a virtual clock

A trial of the scheduler in which every question to the backend takes the same
time. The virtual clock drives passes and questions only; the clock that stamps
and staleness go by stands still. Of what falls on one instant, that which was
set off earlier comes first.
-/

namespace ServiceDirectory.Simulation

open Refresh (Scheduler)

/-- A question under way. -/
structure Flight where
  departed : Nat
  answer : Answer

structure Timeline where
  scheduler : Scheduler
  directory : Directory
  script : Script := {}
  /-- The clock that stamps and staleness go by. -/
  clock : Millis
  /-- Milliseconds from the end of a pass to the next one. -/
  interval : Nat
  /-- Milliseconds that a question takes. -/
  delay : Nat := 0
  now : Nat := 0
  /-- When the scheduler went to rest, and when it begins its next pass. -/
  rested : Nat := 0
  wake : Nat := 0
  /-- The questions under way, in the order of the scheduler's refreshes. -/
  flights : List Flight := []
  /-- The most questions that were under way at once. -/
  peak : Nat := 0

namespace Timeline

def landing (t : Timeline) (f : Flight) : Nat := f.departed + t.delay

/-- How many questions are under way; one that takes no time is over before the next starts. -/
def crowd (t : Timeline) : Nat := if t.delay = 0 then 1 else t.flights.length

/-- Ask the backend for a service. -/
def depart (t : Timeline) (service : Service) : Timeline :=
  let query := t.directory.singleQuery service.name service.clusters
  let conditions : Conditions := { clock := t.clock }
  let answer := t.script.backend conditions query
  let t : Timeline :=
    { t with
      directory := t.directory.record (.asked query)
      script := t.script.use query
      flights := t.flights ++ [{ departed := t.now, answer }] }
  { t with peak := max t.peak t.crowd }

/-- What the scheduler does next, unless it has to wait. -/
def next? (t : Timeline) : Option Refresh.Step :=
  let s := t.scheduler
  match s.phase with
  | .resting =>
    if s.cancelled then some .stop
    else if t.wake ≤ t.now then some (.start t.directory.store.items)
    else none
  | .checking [] => some .rest
  | .checking (_ :: _) => some (.check t.clock t.directory.store)
  | .waiting .. =>
    if s.cancelled then some .stop else if 0 < s.free then some .dispatch else none
  | .stopped => none

/-- A step of the scheduler, with what it sets off. -/
def take (t : Timeline) (step : Refresh.Step) : Timeline :=
  match t.scheduler.step? step with
  | none => t
  | some scheduler =>
    match step, t.scheduler.phase with
    | .dispatch, .waiting service _ => ({ t with scheduler } : Timeline).depart service
    | .rest, _ => { t with scheduler, rested := t.now, wake := t.now + max 1 t.interval }
    | _, _ => { t with scheduler }

/-- At most `fuel` steps of the scheduler, until it has to wait. -/
def proceedWithin : Nat → Timeline → Timeline
  | 0, t => t
  | fuel + 1, t =>
    match t.next? with
    | some step => proceedWithin fuel (t.take step)
    | none => t

/-- The scheduler goes on until it has to wait: two steps for each entry and a few around them. -/
def proceed (t : Timeline) : Timeline :=
  t.proceedWithin (2 * (t.scheduler.unchecked.length + t.directory.store.size) + 4)

/-- The oldest question ends. -/
def land (t : Timeline) : Timeline :=
  match t.flights with
  | [] => t
  | f :: flights =>
    { t with
      flights
      scheduler := (t.scheduler.step? (.finish 0)).getD t.scheduler
      directory := t.directory.settleSingle f.answer }

/-- The questions that end now, of those that departed before a time. -/
def dueBefore (t : Timeline) (time : Nat) : List Flight :=
  t.flights.takeWhile fun f => t.landing f ≤ t.now && f.departed < time

/-- End the questions that are due, of those that departed before a time. -/
def landBefore (t : Timeline) (time : Nat) : Timeline :=
  (t.dueBefore time).foldl (fun t _ => t.land) t

/-- Let questions end and the scheduler go on, at most `fuel` times in turn. -/
def alternate : Nat → Timeline → Timeline
  | 0, t => t
  | fuel + 1, t =>
    if (t.dueBefore (t.now + 1)).isEmpty then t
    else alternate fuel (t.landBefore (t.now + 1)).proceed

/-- All that happens at this instant; after the first turn each one takes an entry of the pass. -/
def settle (t : Timeline) : Timeline :=
  let t := (t.landBefore t.rested).proceed
  t.alternate (t.scheduler.unchecked.length + 2)

/-- When something happens next, if anything does. -/
def nextInstant? (t : Timeline) : Option Nat :=
  let landing := (t.flights.head?).map t.landing
  match t.scheduler.phase with
  | .resting => some (landing.elim t.wake (min t.wake))
  | _ => landing

/-- All that happens from an instant to another one. -/
def run (t : Timeline) (now target : Nat) : Timeline :=
  let t := { t with now }.settle
  if now < target then
    t.run (min target (max (now + 1) (t.nextInstant?.getD target))) target
  else t
termination_by target - now

/-- The trial at a later time. -/
def advance (t : Timeline) (time : Nat) : Timeline := t.run t.now (max t.now time)

/-- The trial after the scheduler was told to stop. -/
def cancel (t : Timeline) : Timeline :=
  { t with scheduler := (t.scheduler.step? .cancel).getD t.scheduler }

end Timeline

end ServiceDirectory.Simulation
