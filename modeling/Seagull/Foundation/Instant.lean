import Mathlib.Tactic

/-!
# Instants and durations

Go's `time.Time` and `time.Duration` as integers of nanoseconds.  An instant is counted from
0001-01-01T00:00:00Z, the zero time.  A duration is a 64-bit integer, so subtracting two instants
saturates.
-/

namespace Seagull

namespace Duration

/-- The longest duration a 64-bit integer holds. -/
def longest : ℤ := 2 ^ 63 - 1

/-- The most negative duration a 64-bit integer holds. -/
def shortest : ℤ := -2 ^ 63

def second : ℤ := 1000000000

def hour : ℤ := 3600 * second

end Duration

namespace Instant

def zero : ℤ := 0

/-- `Time.Sub`: from one instant to a later one, as far as a duration reaches. -/
def sub (later earlier : ℤ) : ℤ :=
  max Duration.shortest (min Duration.longest (later - earlier))

def stored (instant : ℤ) : ℤ := instant - instant % 1000

@[simp]
theorem stored_stored (instant : ℤ) : stored (stored instant) = stored instant := by
  unfold stored
  omega

theorem sub_self (instant : ℤ) : sub instant instant = 0 := by
  simp [sub, Duration.longest, Duration.shortest]

theorem sub_nonneg {later earlier : ℤ} (ordered : earlier ≤ later) : 0 ≤ sub later earlier := by
  unfold sub Duration.longest Duration.shortest
  omega

theorem sub_le {later earlier : ℤ} (ordered : earlier ≤ later) :
    sub later earlier ≤ later - earlier := by
  unfold sub Duration.longest Duration.shortest
  omega

end Instant
end Seagull
