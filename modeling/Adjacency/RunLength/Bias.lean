import Adjacency.Error
import Adjacency.Word

/-!
# Values and markers

A run-length buffer writes the number zero in front of every run. For real values never to look like
that marker they are moved one step away from zero before they are written: `bias` takes `0, 1, 2,
…` to `1, 2, 3, …` and `-1, -2, …` to `-2, -3, …`, so neither `0` nor `-1` is ever the image of a
value. The outermost signed 64-bit number on either side has no image.
-/

namespace Adjacency

namespace RunLength

/-- The number written in front of a run. -/
def marker : Int := 0

/-- One step away from zero. -/
def away (v : Int) : Int := if 0 ≤ v then v + 1 else v - 1

/-- One step towards zero. -/
def back (raw : Int) : Int := if 0 < raw then raw - 1 else raw + 1

theorem away_ne_marker (v : Int) : away v ≠ marker := by
  unfold away marker
  split <;> omega

@[simp] theorem back_away (v : Int) : back (away v) = v := by
  unfold back away
  split <;> split <;> omega

/-- The number written for `v`, if it is a signed 64-bit number. -/
def bias (v : Int) : Except Error Int :=
  if -2 ^ 63 ≤ away v ∧ away v < 2 ^ 63 then .ok (away v) else .error (.invalid .outsideRunRange)

/-- The value that was written as `raw`. -/
def unbias (raw : Int) : Except Error Int :=
  if raw = marker then .error (.decode .unexpectedMarker) else .ok (back raw)

theorem unbias_away (v : Int) : unbias (away v) = .ok v := by
  rw [unbias, if_neg (away_ne_marker v), back_away]

end RunLength

end Adjacency
