import ServiceDirectory.Service

/-!
# The snapshot store

The store holds the current snapshot of each known service and, apart from it,
the time of its last accepted refresh. A snapshot may stand without a stamp: it
was loaded or put there as a placeholder, and counts as never refreshed.
-/

namespace ServiceDirectory

structure Store where
  snapshots : KeyMap ServiceKey Service := KeyMap.empty
  stamps : KeyMap ServiceKey Millis := KeyMap.empty
  deriving DecidableEq, Inhabited

namespace Store

def get? (store : Store) (key : ServiceKey) : Option Service := store.snapshots.get? key

def contains (store : Store) (key : ServiceKey) : Bool := store.snapshots.contains key

/-- Replace a snapshot and leave its stamp as it is. -/
def set (store : Store) (key : ServiceKey) (service : Service) : Store :=
  { store with snapshots := store.snapshots.insert key service }

/-- Set the time of the last refresh, also of a key without a snapshot. -/
def stamp (store : Store) (key : ServiceKey) (time : Millis) : Store :=
  { store with stamps := store.stamps.insert key time }

/-- Replace a snapshot and stamp it. -/
def commit (store : Store) (key : ServiceKey) (service : Service) (time : Millis) : Store :=
  (store.set key service).stamp key time

/-- The time of the last refresh, zero if there was none. -/
def lastRefresh (store : Store) (key : ServiceKey) : Millis := (store.stamps.get? key).getD 0

/-- All entries in key order, which stands for any other: who copies the entries goes by
`IsCopy`. -/
def items (store : Store) : List (ServiceKey × Service) := store.snapshots.entries

/-- A copy has each entry once. In which order it has them is not specified, and two copies of one
store may differ in it. -/
def IsCopy (store : Store) (entries : List (ServiceKey × Service)) : Prop :=
  entries.Perm store.items

instance (store : Store) (entries : List (ServiceKey × Service)) :
    Decidable (store.IsCopy entries) :=
  inferInstanceAs (Decidable (entries.Perm store.items))

def size (store : Store) : Nat := store.snapshots.size

def isEmpty (store : Store) : Bool := store.snapshots.isEmpty

theorem isCopy_items (store : Store) : store.IsCopy store.items := .refl _

@[simp] theorem get?_set (store : Store) (key other : ServiceKey) (service : Service) :
    (store.set key service).get? other = if key = other then some service else store.get? other :=
  KeyMap.get?_insert store.snapshots key other service

@[simp] theorem get?_stamp (store : Store) (key other : ServiceKey) (time : Millis) :
    (store.stamp key time).get? other = store.get? other := rfl

@[simp] theorem lastRefresh_set (store : Store) (key other : ServiceKey) (service : Service) :
    (store.set key service).lastRefresh other = store.lastRefresh other := rfl

@[simp] theorem lastRefresh_stamp (store : Store) (key other : ServiceKey) (time : Millis) :
    (store.stamp key time).lastRefresh other =
      if key = other then time else store.lastRefresh other := by
  simp only [lastRefresh, stamp, KeyMap.get?_insert]
  split <;> rfl

@[simp] theorem get?_commit (store : Store) (key other : ServiceKey) (service : Service)
    (time : Millis) :
    (store.commit key service time).get? other =
      if key = other then some service else store.get? other := by
  simp [commit]

@[simp] theorem lastRefresh_commit (store : Store) (key other : ServiceKey) (service : Service)
    (time : Millis) :
    (store.commit key service time).lastRefresh other =
      if key = other then time else store.lastRefresh other := by
  simp [commit]

end Store

end ServiceDirectory
