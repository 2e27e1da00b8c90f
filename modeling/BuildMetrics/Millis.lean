/-!
# Times

A point in time and a duration are both a count of milliseconds in 64 bits. The difference of two
times that does not fit becomes the nearest one that does.
-/

namespace BuildMetrics

/-- A time since the epoch or a duration, in milliseconds. -/
abbrev Millis : Type := Int64

namespace Millis

/-- The least time. -/
def least : Int := -9223372036854775808

/-- The greatest time. -/
def greatest : Int := 9223372036854775807

/-- The time or duration of an integer; the nearest one if it does not fit. -/
def clamp (n : Int) : Millis := Int64.ofInt (max least (min greatest n))

/-- The duration from one time to another. -/
def since (later earlier : Millis) : Millis := clamp (later.toInt - earlier.toInt)

/-- A time that does not fit is the nearest one that does. -/
theorem toInt_clamp (n : Int) :
    (clamp n).toInt = max (-9223372036854775808) (min 9223372036854775807 n) := by
  rw [clamp, least, greatest]
  refine Int64.toInt_ofInt_of_le ?_ ?_
  · omega
  · omega

end Millis

end BuildMetrics
