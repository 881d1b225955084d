import ServiceDirectory.Json.Basic

/-!
# Records in JSON

A record is an object whose known members occur at most once, in any order and
among unknown ones, or an array of its fields in their order. Fields that may be
left out have a default; of an array the last fields may be left out.
-/

namespace ServiceDirectory.Json

/-- The members of a record: its keys are texts, none of the known ones twice. -/
structure Record where
  members : List (String × Json)

namespace Record

/-- The record that a value spells. -/
def ofJson? (fields : List String) : Json → Option Record
  | .array items => if items.length ≤ fields.length then some ⟨fields.zip items⟩ else none
  | value =>
    match value.members? with
    | some members =>
      if fields.all fun f => (members.filter (·.1 = f)).length ≤ 1 then some ⟨members⟩ else none
    | none => none

def get? (r : Record) (field : String) : Option Json := r.members.lookup field

/-- A field that must be there. -/
def required {α : Type} (r : Record) (field : String) (read : Json → Option α) : Option α :=
  (r.get? field).bind read

/-- A field that has a default. -/
def optional {α : Type} (r : Record) (field : String) (read : Json → Option α) (default : α) :
    Option α :=
  match r.get? field with
  | some value => read value
  | none => some default

end Record

end ServiceDirectory.Json
