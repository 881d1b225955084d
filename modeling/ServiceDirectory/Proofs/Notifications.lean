import Mathlib.Data.List.DropRight
import ServiceDirectory.Listeners

/-!
# Who is notified

What callers, and the listeners that are called, subscribe and remove is one
history of changes. A registry holds under each key what was subscribed since
the key was last emptied, so a notification calls exactly those listeners. What
a listener changes while it is called counts from the next notification on.
-/

namespace ServiceDirectory

namespace Listeners

/-! ## Histories of changes -/

/-- A change of who is subscribed, with name and clusters as they were spelled. -/
inductive Change where
  | subscribed (name clusters : String) (listener : Listener)
  | unsubscribedAll (name clusters : String)

/-- Whether all listeners of a key are removed. -/
def Change.empties (key : ServiceKey) : Change → Bool
  | .subscribed .. => false
  | .unsubscribedAll name clusters => ServiceKey.of name clusters = key

/-- The listener that is subscribed under a key, if that is the change. -/
def Change.addition? (key : ServiceKey) : Change → Option Listener
  | .subscribed name clusters listener =>
    if ServiceKey.of name clusters = key then some listener else none
  | .unsubscribedAll .. => none

/-- The listeners subscribed under a key since it was last emptied, in the order of subscription. -/
def live (key : ServiceKey) (history : List Change) : List Listener :=
  (history.rtakeWhile fun change => !change.empties key).filterMap (Change.addition? key)

theorem live_concat_subscribed (key : ServiceKey) (history : List Change) (name clusters : String)
    (listener : Listener) :
    live key (history ++ [.subscribed name clusters listener]) =
      if ServiceKey.of name clusters = key then live key history ++ [listener]
      else live key history := by
  rw [live, List.rtakeWhile_concat, if_pos (by rfl), List.filterMap_append, ← live]
  by_cases hkey : ServiceKey.of name clusters = key
  · simp [Change.addition?, hkey]
  · simp [Change.addition?, hkey]

theorem live_concat_unsubscribedAll (key : ServiceKey) (history : List Change)
    (name clusters : String) :
    live key (history ++ [.unsubscribedAll name clusters]) =
      if ServiceKey.of name clusters = key then [] else live key history := by
  rw [live, List.rtakeWhile_concat]
  by_cases hkey : ServiceKey.of name clusters = key
  · simp [Change.empties, hkey]
  · rw [if_pos (by simpa [Change.empties] using hkey), List.filterMap_append, ← live, if_neg hkey]
    exact List.append_nil _

end Listeners

/-- What a listener changes when it is called, up to its end or its failure. -/
def Reaction.changes : Reaction → List Listeners.Change
  | .done | .fail => []
  | .dismiss name clusters next => .unsubscribedAll name clusters :: next.changes
  | .recruit name clusters label reaction next =>
    .subscribed name clusters ⟨label, reaction⟩ :: next.changes

/-- Whether a listener ends in a failure. -/
def Reaction.fails : Reaction → Bool
  | .done => false
  | .fail => true
  | .dismiss _ _ next | .recruit _ _ _ _ next => next.fails

namespace Listeners

/-! ## The registry by key -/

theorem registered_subscribe (registry : Listeners) (name clusters : String) (listener : Listener)
    (key : ServiceKey) :
    (registry.subscribe name clusters listener).registered key =
      if ServiceKey.of name clusters = key then registry.registered key ++ [listener]
      else registry.registered key := by
  rw [registered, subscribe, add, KeyMap.get?_insert]
  split
  · rename_i hkey
    rw [hkey, Option.getD_some]
  · rfl

theorem registered_unsubscribeAll (registry : Listeners) (name clusters : String)
    (key : ServiceKey) :
    (registry.unsubscribeAll name clusters).registered key =
      if ServiceKey.of name clusters = key then [] else registry.registered key := by
  rw [registered, unsubscribeAll, removeAll, KeyMap.get?_erase]
  split
  · rfl
  · rfl

theorem isSubscribed_iff {registry : Listeners} {name clusters : String} :
    registry.isSubscribed name clusters = true ↔
      ∃ listener, listener ∈ registry.registered (ServiceKey.of name clusters) := by
  rw [isSubscribed, Bool.not_eq_true', List.isEmpty_eq_false_iff_exists_mem]

/-! ## Registries and histories -/

/-- Under each key the registry holds the listeners that are live after the history. -/
def Reflects (registry : Listeners) (history : List Change) : Prop :=
  ∀ key, registry.registered key = live key history

theorem reflects_empty : Reflects {} [] := fun _ => rfl

namespace Reflects

variable {registry : Listeners} {history : List Change}

theorem subscribe (h : registry.Reflects history) (name clusters : String) (listener : Listener) :
    (registry.subscribe name clusters listener).Reflects
      (history ++ [.subscribed name clusters listener]) := by
  intro key
  rw [registered_subscribe, live_concat_subscribed, h key]

theorem unsubscribeAll (h : registry.Reflects history) (name clusters : String) :
    (registry.unsubscribeAll name clusters).Reflects
      (history ++ [.unsubscribedAll name clusters]) := by
  intro key
  rw [registered_unsubscribeAll, live_concat_unsubscribedAll, h key]

/-- A listener that is called makes its changes, also if it fails after them. -/
theorem react (h : registry.Reflects history) (reaction : Reaction) :
    (registry.react reaction).1.Reflects (history ++ reaction.changes) := by
  induction reaction generalizing registry history with
  | done => simpa [Listeners.react, Reaction.changes] using h
  | fail => simpa [Listeners.react, Reaction.changes] using h
  | dismiss name clusters next ih =>
      rw [Listeners.react, Reaction.changes, List.append_cons]
      exact ih (h.unsubscribeAll name clusters)
  | recruit name clusters label reaction next _ ih =>
      rw [Listeners.react, Reaction.changes, List.append_cons]
      exact ih (h.subscribe name clusters ⟨label, reaction⟩)

theorem callAll (h : registry.Reflects history) (service : Service) (listeners : List Listener) :
    (registry.callAll service listeners).2.Reflects
      (history ++ listeners.flatMap fun l => l.reaction.changes) := by
  induction listeners generalizing registry history with
  | nil => simpa [Listeners.callAll] using h
  | cons listener rest ih =>
      rw [List.flatMap_cons, ← List.append_assoc]
      exact ih (h.react listener.reaction)

end Reflects

/-! ## Calls -/

theorem react_failed (registry : Listeners) (reaction : Reaction) :
    (registry.react reaction).2 = reaction.fails := by
  induction reaction generalizing registry with
  | done => rfl
  | fail => rfl
  | dismiss name clusters next ih => exact ih _
  | recruit name clusters label reaction next _ ih => exact ih _

/-- The call of a listener for a service. -/
def Call.of (service : Service) (listener : Listener) : Call :=
  ⟨listener, service, listener.reaction.fails⟩

/-- Whatever listeners do to the registry and however they end, each is called once and in turn. -/
theorem callAll_calls (registry : Listeners) (service : Service) (listeners : List Listener) :
    (registry.callAll service listeners).1 = listeners.map (Call.of service) := by
  induction listeners generalizing registry with
  | nil => rfl
  | cons listener rest ih =>
      rw [List.map_cons, ← ih (registry.react listener.reaction).1, Call.of,
        ← registry.react_failed]
      rfl

/-! ## Runs -/

/-- What is done with a registry from outside. -/
inductive Operation where
  | subscribe (name clusters : String) (listener : Listener)
  | unsubscribeAll (name clusters : String)
  | notify (service : Service)

/-- The registry after an operation. -/
def perform (registry : Listeners) : Operation → Listeners
  | .subscribe name clusters listener => registry.subscribe name clusters listener
  | .unsubscribeAll name clusters => registry.unsubscribeAll name clusters
  | .notify service => (registry.notify service).2

/-- A new registry after operations. -/
def after (operations : List Operation) : Listeners := operations.foldl perform {}

/-- The history after an operation. A notification adds what the listeners change that are live
when it begins, one listener after another. -/
def extend (history : List Change) : Operation → List Change
  | .subscribe name clusters listener => history ++ [.subscribed name clusters listener]
  | .unsubscribeAll name clusters => history ++ [.unsubscribedAll name clusters]
  | .notify service =>
    history ++ (live service.key history).flatMap fun listener => listener.reaction.changes

/-- All changes that operations lead to. -/
def changes (operations : List Operation) : List Change := operations.foldl extend []

theorem Reflects.perform {registry : Listeners} {history : List Change}
    (h : registry.Reflects history) (operation : Operation) :
    (registry.perform operation).Reflects (extend history operation) := by
  cases operation with
  | subscribe name clusters listener => exact h.subscribe name clusters listener
  | unsubscribeAll name clusters => exact h.unsubscribeAll name clusters
  | notify service =>
      rw [extend, ← h service.key]
      exact h.callAll service (registry.registered service.key)

theorem reflects_after (operations : List Operation) :
    (after operations).Reflects (changes operations) := by
  induction operations using List.reverseRecOn with
  | nil => exact reflects_empty
  | append_singleton operations operation ih =>
      rw [after, changes, List.foldl_concat, List.foldl_concat]
      exact ih.perform operation

theorem Reflects.notify_calls {registry : Listeners} {history : List Change}
    (h : registry.Reflects history) (service : Service) :
    (registry.notify service).1 = (live service.key history).map (Call.of service) := by
  rw [notify, callAll_calls, h service.key]

/-- After any operations, with listeners that change the registry and fail as they like: a
notification calls, in the order of subscription and once for each subscription, exactly the
listeners that are live when it begins under the key of its service; the next notification, of
whatever service, goes by all that they changed; and a name with clusters is subscribed if and
only if a listener is live under its key. -/
theorem live_listeners_called (operations : List Operation) :
    let registry := after operations
    let history := changes operations
    (∀ service, (registry.notify service).1 =
      (live service.key history).map (Call.of service)) ∧
    (∀ service next, ((registry.notify service).2.notify next).1 =
      (live next.key (history ++
        (live service.key history).flatMap fun listener => listener.reaction.changes)).map
          (Call.of next)) ∧
    ∀ name clusters, registry.isSubscribed name clusters = true ↔
      ∃ listener, listener ∈ live (ServiceKey.of name clusters) history := by
  have hreflects := reflects_after operations
  refine ⟨hreflects.notify_calls, fun service next => ?_, fun name clusters => ?_⟩
  · exact (hreflects.perform (.notify service)).notify_calls next
  · rw [isSubscribed_iff, hreflects (ServiceKey.of name clusters)]

/-- A listener that empties its key, registers another in its place and fails keeps none of those
after it from being called; only its successor is there the next time. -/
example :
    let replaced : Listener :=
      ⟨"first", .dismiss "a" "y,x" (.recruit "a" " x,y" "third" .done .fail)⟩
    let registry := after [.subscribe "a" "x,y" replaced, .subscribe "a" "y,x,y" ⟨"second", .done⟩]
    let service := Service.placeholder "a" "y, x"
    let called := (registry.notify service).1.map (·.listener.label)
    let next := ((registry.notify service).2.notify service).1.map (·.listener.label)
    called = ["first", "second"] ∧ next = ["third"] := by
  cbv

end Listeners

end ServiceDirectory
