import ServiceDirectory.Refresh.Staleness
import ServiceDirectory.Refresh.Width

/-!
# The refresh scheduler

A scheduler makes passes over a copy of the store's entries. An entry that is
found stale when its turn comes waits for a permit and is then sent off for a
refresh; the permit comes back when the refresh ends, however it ends. A
scheduler that is cancelled stops where it would wait or rest, and refreshes
that are under way then still end.
-/

namespace ServiceDirectory.Refresh

/-- Where a scheduler is between two steps. -/
inductive Phase where
  /-- Between two passes. -/
  | resting
  /-- In a pass, with these entries still to be checked. -/
  | checking (entries : List (ServiceKey × Service))
  /-- In a pass, with a stale snapshot that waits for a permit. -/
  | waiting (stale : Service) (entries : List (ServiceKey × Service))
  | stopped
  deriving DecidableEq

/-- One step of a scheduler or of its surroundings. -/
inductive Step where
  /-- A pass begins, over a copy of the store's entries. -/
  | start (entries : List (ServiceKey × Service))
  /-- The next entry is checked against the clock and the stamps of the moment. -/
  | check (clock : Millis) (store : Store)
  /-- The stale snapshot gets a permit and is sent off. -/
  | dispatch
  /-- The refresh at this position among those under way ends. -/
  | finish (position : Nat)
  /-- The pass ends. -/
  | rest
  | cancel
  /-- The scheduler notices that it is cancelled. -/
  | stop

structure Scheduler where
  free : Nat
  /-- The snapshots whose refreshes are under way, oldest first. -/
  underway : List Service := []
  phase : Phase := .resting
  cancelled : Bool := false
  deriving DecidableEq

namespace Scheduler

/-- A scheduler with all its permits free. -/
def ofWidth (width : Nat) : Scheduler := { free := poolWidth width }

/-- The entries that the pass has not checked yet. -/
def unchecked (s : Scheduler) : List (ServiceKey × Service) :=
  match s.phase with
  | .checking entries | .waiting _ entries => entries
  | .resting | .stopped => []

/-- The scheduler after a step, if the step is possible. -/
def step? (s : Scheduler) : Step → Option Scheduler
  | .start entries =>
    match s.phase with
    | .resting => some { s with phase := .checking entries }
    | _ => none
  | .check clock store =>
    match s.phase with
    | .checking ((key, service) :: entries) =>
      some
        { s with
          phase :=
            if store.isStale clock key service then .waiting service entries
            else .checking entries }
    | _ => none
  | .dispatch =>
    match s.phase, s.free with
    | .waiting service entries, free + 1 =>
      some { s with free, underway := s.underway ++ [service], phase := .checking entries }
    | _, _ => none
  | .finish position =>
    if position < s.underway.length then
      some { s with free := s.free + 1, underway := s.underway.eraseIdx position }
    else none
  | .rest =>
    match s.phase with
    | .checking [] => some { s with phase := .resting }
    | _ => none
  | .cancel => some { s with cancelled := true }
  | .stop =>
    match s.cancelled, s.phase with
    | true, .resting | true, .waiting .. => some { s with phase := .stopped }
    | _, _ => none

/-- The scheduler after steps one after another, if all of them are possible. -/
def run? (s : Scheduler) (steps : List Step) : Option Scheduler := steps.foldlM step? s

end Scheduler

end ServiceDirectory.Refresh
