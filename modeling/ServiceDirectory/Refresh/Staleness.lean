import ServiceDirectory.Store

/-!
# Staleness

A snapshot says how long it counts as fresh. The time since its last refresh is
never negative: a clock that was set back, or a stamp ahead of the clock, gives
none at all.
-/

namespace ServiceDirectory

/-- The time from the last refresh to now, zero if the refresh lies ahead. -/
def elapsed (clock lastRefresh : Millis) : Millis :=
  if lastRefresh ≤ clock then clock - lastRefresh else 0

theorem toNat_elapsed (clock lastRefresh : Millis) :
    (elapsed clock lastRefresh).toNat = clock.toNat - lastRefresh.toNat := by
  unfold elapsed
  split
  · next h => exact UInt64.toNat_sub_of_le _ _ h
  · next h =>
    rw [UInt64.le_iff_toNat_le] at h
    have : clock.toNat - lastRefresh.toNat = 0 := by omega
    rw [this]; rfl

/-- Whether a snapshot of a key needs a refresh: strictly more time has passed than it names. -/
def Store.isStale (store : Store) (clock : Millis) (key : ServiceKey) (service : Service) : Bool :=
  service.cacheMillis < elapsed clock (store.lastRefresh key)

theorem Store.isStale_iff (store : Store) (clock : Millis) (key : ServiceKey) (service : Service) :
    store.isStale clock key service = true ↔
      service.cacheMillis.toNat < clock.toNat - (store.lastRefresh key).toNat := by
  rw [isStale, decide_eq_true_iff, UInt64.lt_iff_toNat_lt, toNat_elapsed]

end ServiceDirectory
