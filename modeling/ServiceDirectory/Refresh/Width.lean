/-!
# How many refreshes may run at once

The width of a scheduler is a number of permits. It is taken from the number of
refresh threads that is configured, where zero stands for the default, and is at
least one and at most what a pool of permits can hold.
-/

namespace ServiceDirectory.Refresh

/-- The most permits that a pool can hold. -/
def permitLimit : Nat := 0x1FFFFFFFFFFFFFFF

/-- The width that is used where none is configured. -/
def defaultWidth : Nat := 20

/-- The width for a configured number of threads. -/
def configuredWidth (threads : UInt64) : Nat :=
  if threads = 0 then defaultWidth else min threads.toNat permitLimit

/-- The width of the pool that a scheduler of the given width gets. -/
def poolWidth (width : Nat) : Nat := max 1 (min width permitLimit)

theorem one_le_poolWidth (width : Nat) : 1 ≤ poolWidth width := Nat.le_max_left ..

theorem poolWidth_le (width : Nat) : poolWidth width ≤ permitLimit :=
  Nat.max_le.mpr ⟨by decide, Nat.min_le_right ..⟩

end ServiceDirectory.Refresh
