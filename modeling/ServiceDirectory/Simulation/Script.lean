import ServiceDirectory.Backend.Query

/-!
# A backend that follows a script

For trials without a network, the backend is given by what it answers: for each
service asked for singly, for batched questions and for catalogs a list of
answers. They are used up in order, and the last one is given again and again.
-/

namespace ServiceDirectory.Simulation

/-- Which questions share a list of answers. -/
inductive Slot where
  | single (name : String)
  | batch
  | catalog
  deriving DecidableEq

def Slot.of : Query → Slot
  | .single name .. => .single name
  | .batch .. => .batch
  | .catalog .. => .catalog

/-- One answer of a script. -/
structure Line where
  /-- Documents that arrive while the question is under way. -/
  meanwhile : List String := []
  /-- The reply text; `none` if the question fails. -/
  reply : Option String := some ""
  deriving DecidableEq

/-- The answers that are left for each slot; where there are none, the reply is empty. -/
structure Script where
  lines : List (Slot × List Line) := []
  deriving DecidableEq, Inhabited

namespace Script

def linesOf (script : Script) (slot : Slot) : List Line := (script.lines.lookup slot).getD []

/-- Replace the answers of a slot. -/
def set (script : Script) (slot : Slot) (lines : List Line) : Script :=
  ⟨(slot, lines) :: script.lines.filter (·.1 != slot)⟩

/-- How the next question of each slot goes, when documents meet the given conditions. -/
def backend (script : Script) (c : Conditions) : Backend := fun query =>
  let line := (script.linesOf (Slot.of query)).head?.getD {}
  { meanwhile := line.meanwhile.map (⟨·, c⟩), reply := line.reply, conditions := fun _ => c }

/-- The script after a question was asked. -/
def use (script : Script) (query : Query) : Script :=
  match script.linesOf (Slot.of query) with
  | _ :: next :: rest => script.set (Slot.of query) (next :: rest)
  | _ => script

end Script

end ServiceDirectory.Simulation
