import ServiceDirectory.Service

/-!
# Listeners

Listeners are registered under service keys. A notification calls the listeners
that are registered when it begins, each once and in the order of registration;
what they do to the registry meanwhile, or that one of them fails, does not
change who is called this time.
-/

namespace ServiceDirectory

/-- What a listener does when it is called, one thing after another. -/
inductive Reaction where
  | done
  /-- Fails; what was done before stays done. -/
  | fail
  /-- Removes all listeners of a key, as a rule its own. -/
  | dismiss (name clusters : String) (next : Reaction)
  /-- Registers another listener, which has a reaction of its own. -/
  | recruit (name clusters label : String) (reaction next : Reaction)
  deriving DecidableEq, Inhabited

/-- A listener, told apart by a label, with what it does when it is called. -/
structure Listener where
  label : String
  reaction : Reaction := .done
  deriving DecidableEq, Inhabited

/-- The listeners of each key in the order of their registration; no key is there without any. -/
structure Listeners where
  byKey : KeyMap ServiceKey (List Listener) := KeyMap.empty
  deriving DecidableEq, Inhabited

namespace Listeners

/-- The listeners registered under a key. -/
def registered (registry : Listeners) (key : ServiceKey) : List Listener :=
  (registry.byKey.get? key).getD []

def add (registry : Listeners) (key : ServiceKey) (listener : Listener) : Listeners :=
  ⟨registry.byKey.insert key (registry.registered key ++ [listener])⟩

def subscribe (registry : Listeners) (name clusters : String) (listener : Listener) : Listeners :=
  registry.add (ServiceKey.of name clusters) listener

def removeAll (registry : Listeners) (key : ServiceKey) : Listeners := ⟨registry.byKey.erase key⟩

def unsubscribeAll (registry : Listeners) (name clusters : String) : Listeners :=
  registry.removeAll (ServiceKey.of name clusters)

def isSubscribed (registry : Listeners) (name clusters : String) : Bool :=
  !(registry.registered (ServiceKey.of name clusters)).isEmpty

/-- The registry after a listener reacted, and whether the listener failed. -/
def react (registry : Listeners) : Reaction → Listeners × Bool
  | .done => (registry, false)
  | .fail => (registry, true)
  | .dismiss name clusters next => (registry.unsubscribeAll name clusters).react next
  | .recruit name clusters label reaction next =>
    (registry.subscribe name clusters ⟨label, reaction⟩).react next

/-- One call of a listener; a failure is noted and goes no further. -/
structure Call where
  listener : Listener
  service : Service
  failed : Bool
  deriving DecidableEq

/-- Call listeners one after another, each on the registry that the calls before it left. -/
def callAll (registry : Listeners) (service : Service) : List Listener → List Call × Listeners
  | [] => ([], registry)
  | listener :: rest =>
    let (registry, failed) := registry.react listener.reaction
    let (calls, registry) := registry.callAll service rest
    (⟨listener, service, failed⟩ :: calls, registry)

/-- Notify the listeners of a service: the calls, and the registry after them. -/
def notify (registry : Listeners) (service : Service) : List Call × Listeners :=
  -- The list is fixed here; what the listeners do to the registry does not reach it.
  registry.callAll service (registry.registered service.key)

end Listeners

end ServiceDirectory
