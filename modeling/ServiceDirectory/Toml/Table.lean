import ServiceDirectory.Toml.Basic

/-!
# Building tables

Nothing is defined twice. A dotted key goes through tables that are only on the
way to others, and ends in one that dotted keys have made; a header goes through
any table but one in braces, and through the last of tables opened one by one.
-/

namespace ServiceDirectory.Toml

/-- Members with another value for a name, or with one more member. -/
def put (name : String) (value : Value) : Members → Members
  | [] => [(name, value)]
  | m :: rest => if m.1 = name then (name, value) :: rest else m :: put name value rest

/-- A key and its value, with the names on the way to it. -/
structure Entry where
  path : List String
  key : String
  value : Value

/-- Add a value behind a dotted key; `inside` holds once the first dot is passed. -/
def insertDotted (key : String) (value : Value) (inside : Bool) :
    List String → Origin → Members → Option Members
  | [], origin, members =>
    if (inside && origin != .dotted) || (members.lookup key).isSome then none
    else some (members ++ [(key, value)])
  | name :: path, _, members =>
    match members.lookup name with
    | none =>
      (insertDotted key value true path .dotted []).map fun inner =>
        put name (.table .dotted inner) members
    | some (.table origin inner) =>
      if origin = .passage ∨ origin = .dotted then
        (insertDotted key value true path origin inner).map fun inner =>
          put name (.table origin inner) members
      else none
    | some (.tables elements) =>
      match elements.getLast? with
      | none => none
      | some last =>
        (insertDotted key value true path .header last).map fun last =>
          put name (.tables (elements.dropLast ++ [last])) members
    | some _ => none

/-- Add the entries that stand together in a table. -/
def insertAll (entries : List Entry) (members : Members) : Option Members :=
  entries.foldlM (fun members e => insertDotted e.key e.value false e.path .header members) members

/-- Change what a header's path leads to. -/
def changeAt (key : String) (change : Option Value → Option Value) :
    List String → Members → Option Members
  | [], members => (change (members.lookup key)).map fun value => put key value members
  | name :: path, members =>
    match members.lookup name with
    | none =>
      (changeAt key change path []).map fun inner => put name (.table .passage inner) members
    | some (.table origin inner) =>
      if origin = .braces then none
      else
        (changeAt key change path inner).map fun inner => put name (.table origin inner) members
    | some (.tables elements) =>
      match elements.getLast? with
      | none => none
      | some last =>
        (changeAt key change path last).map fun last =>
          put name (.tables (elements.dropLast ++ [last])) members
    | some _ => none

/-- A table with these entries, where none is or one that is only on the way to others. -/
def openTable (entries : List Entry) : Option Value → Option Value
  | none => (insertAll entries []).map (.table .header)
  | some (.table .passage inner) => (insertAll entries inner).map (.table .header)
  | some _ => none

/-- One more table with these entries. -/
def appendTable (entries : List Entry) : Option Value → Option Value
  | none => (insertAll entries []).map fun table => .tables [table]
  | some (.tables elements) =>
    (insertAll entries []).map fun table => .tables (elements ++ [table])
  | some _ => none

end ServiceDirectory.Toml
