/-
Go's `time.Time` and `time.Duration`, as far as the modelled packages
use them.

An instant is an `Int`, its distance in nanoseconds from Go's zero time
(January 1, year 1, 00:00:00 UTC), so that `IsZero` is a comparison
with 0: the source uses the zero time as "unset" in several places, and
a clock that really reads it is not excluded by construction. Instants
are unbounded; a `Duration` is an `Int` of nanoseconds too, an `int64`
in Go, and `Sub` is where the difference shows (it saturates). A product
of durations wraps around (`wrap`), and so does the count of seconds that
`time.Unix` keeps. `Add`, `After`, `Before` and `Equal` are the operations
of `Int`.
-/

namespace Tokyo3Base.Go

/-- The largest `time.Duration`, `1<<63 - 1`. -/
def maxDuration : Int := 9223372036854775807

/-- The smallest `time.Duration`, `-1 << 63`. -/
def minDuration : Int := -9223372036854775808

def second : Int := 1000000000

def minute : Int := 60 * second

def hour : Int := 60 * minute

/-- A `time.Duration` that is stored, as opposed to computed: an
`int64`. -/
abbrev Duration := { d : Int // minDuration ≤ d ∧ d ≤ maxDuration }

/-- `Time.IsZero`. -/
def isZero (t : Int) : Bool := t == 0

/-- `Time.Sub`: the distance from `u` to `t`, saturated to a
`Duration`. -/
def sub (t u : Int) : Int :=
  if t - u < minDuration then minDuration
  else if maxDuration < t - u then maxDuration
  else t - u

/-- `Time.Unix`: whole seconds since January 1, 1970, rounded down. -/
def unix (t : Int) : Int := t / second - 62135596800

/-- What an `int64` holds of a number: it wraps around. -/
def wrap (x : Int) : Int := Int.bmod x UInt64.size

/-- `time.Unix(sec, 0)`: the seconds are kept from year 1 on, as an
`int64`. -/
def fromUnix (sec : Int) : Int := wrap (sec + 62135596800) * second

theorem wrap_bounds (x : Int) : minDuration ≤ wrap x ∧ wrap x ≤ maxDuration := by
  unfold wrap minDuration maxDuration Int.bmod UInt64.size
  dsimp only
  split <;> omega

theorem wrap_eq_self_iff {x : Int} :
    wrap x = x ↔ minDuration ≤ x ∧ x ≤ maxDuration := by
  refine ⟨fun h => h ▸ wrap_bounds x, fun h => ?_⟩
  unfold minDuration maxDuration at h
  unfold wrap Int.bmod UInt64.size
  dsimp only
  split <;> omega

theorem lt_of_unix_lt {t u : Int} (h : unix t < unix u) : t < u := by
  unfold unix second at h
  omega

@[simp] theorem isZero_iff (t : Int) : isZero t = true ↔ t = 0 := by
  simp [isZero]

/-- Saturation never changes a comparison with a duration short of the
largest. -/
theorem lt_sub_iff {t u d : Int} (hlo : minDuration ≤ d)
    (hhi : d < maxDuration) : d < sub t u ↔ d < t - u := by
  unfold sub
  split
  · omega
  · split <;> omega

/-- Nor one with a duration that is not negative, the largest included. -/
theorem le_sub_iff {t u d : Int} (hlo : 0 ≤ d) (hhi : d ≤ maxDuration) :
    d ≤ sub t u ↔ d ≤ t - u := by
  unfold sub minDuration
  split
  · omega
  · split <;> omega

/-- A saturated distance above a duration is a real one. -/
theorem lt_of_lt_sub {t u d : Int} (hlo : minDuration ≤ d)
    (h : d < sub t u) : d < t - u := by
  unfold sub at h
  split at h
  · omega
  · split at h <;> omega

end Tokyo3Base.Go
