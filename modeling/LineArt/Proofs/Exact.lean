import LineArt.Run
import Mathlib.Algebra.Order.Field.Rat
import Mathlib.Tactic.Ring

/-!
# Exact scalars

The rationals, where no operation rounds.  Here the chosen extrema are the minimum
and the maximum, and the center of a box is the mean of its corners, whichever
corners they are.
-/

namespace LineArt

instance : Scalar ℚ where
  zero := 0
  one := 1
  half := 1 / 2
  ofCount n := n.toNat
  decidableLT := inferInstance

theorem least_eq_min (a b : ℚ) : Scalar.least a b = min a b := by
  rw [min_def_lt]
  by_cases h : a < b
  · rw [Scalar.least_of_lt h, if_pos h]
  · rw [Scalar.least_of_not_lt h, if_neg h]

theorem greatest_eq_max (a b : ℚ) : Scalar.greatest a b = max a b := by
  rw [max_comm, max_def_lt]
  by_cases h : b < a
  · rw [Scalar.greatest_of_lt h, if_pos h]
  · rw [Scalar.greatest_of_not_lt h, if_neg h]

/-! ### Centers -/

theorem mean_of_extrema (a b : ℚ) :
    (Scalar.least a b + Scalar.greatest a b) * Scalar.half = (a + b) / 2 := by
  have hhalf : (Scalar.half : ℚ) = 1 / 2 := rfl
  have hsum := min_add_max a b
  rw [least_eq_min, greatest_eq_max, hsum, hhalf, mul_one_div]

theorem center_x (b : Bounds ℚ) : b.center.x = (b.min.x + b.max.x) / 2 :=
  mean_of_extrema b.min.x b.max.x

theorem center_y (b : Bounds ℚ) : b.center.y = (b.min.y + b.max.y) / 2 :=
  mean_of_extrema b.min.y b.max.y

theorem centering_x (config : Config ℚ) (b : Bounds ℚ) :
    (centering config b).x = config.canvas.x / 2 - b.center.x := by
  have hmiddle := mean_of_extrema 0 config.canvas.x
  rw [zero_add] at hmiddle
  exact congrArg (fun v => v - b.center.x) hmiddle

theorem centering_y (config : Config ℚ) (b : Bounds ℚ) :
    (centering config b).y = config.canvas.y / 2 - b.center.y := by
  have hmiddle := mean_of_extrema 0 config.canvas.y
  rw [zero_add] at hmiddle
  exact congrArg (fun v => v - b.center.y) hmiddle

end LineArt
