import LineArt.Proofs.Binary32.Nearest
import LineArt.Proofs.Json.Faithful
import LineArt.Proofs.Json.Midpoints
import LineArt.Proofs.Json.Words

/-!
# Floats read back

The text of a finite float is read as that float.  The decimal in it lies between the two
midpoints next to the float, and scaling its word carries it across neither of them, so the
64-bit float that was read is rounded to the float that was written.
-/

namespace LineArt

/-! ### Whole decimals -/

namespace Decimal.Scaled

variable (d : Scaled) (h : 0 ≤ d.exponent)

include h

theorem value_of_nonneg : d.value = (d.significand * 10 ^ d.exponent.toNat : ℕ) := by
  obtain ⟨p, k⟩ := d
  obtain ⟨k, rfl⟩ := Int.eq_ofNat_of_zero_le h
  unfold value
  push_cast
  rfl

theorem lt_of_places {n : ℕ} (hplaces : (digits d.significand).length + d.exponent ≤ n) :
    d.significand * 10 ^ d.exponent.toNat < 10 ^ n := by
  have hlength := lt_pow_length_digits d.significand
  calc d.significand * 10 ^ d.exponent.toNat
      < 10 ^ (digits d.significand).length * 10 ^ d.exponent.toNat :=
        Nat.mul_lt_mul_of_pos_right hlength (Nat.pow_pos (by decide))
    _ = 10 ^ ((digits d.significand).length + d.exponent.toNat) := (Nat.pow_add 10 _ _).symm
    _ ≤ 10 ^ n := Nat.pow_le_pow_right (by decide) (by omega)

end Decimal.Scaled

namespace Json

open Binary64 (Normal Short view_neg)
open Decimal (Binary Scaled Tie)
open Float.Model.UnpackedFloat (Sign)
open Value (floatLayout)

/-! ### The midpoints next to a float -/

/-- A midpoint that is one step of its own grid away from a float. -/
structure Beside (b : Binary) (n : ℕ) (f : ℤ) : Prop where
  odd : n % 2 = 1
  lt : n < 2 ^ 25
  low : -150 ≤ f
  high : f ≤ 103
  step : |b.value - n * 2 ^ f| = 2 ^ f

theorem two_zpow_halves (e : ℤ) : (2 : ℚ) ^ e = 2 * 2 ^ (e - 1) := by
  rw [← zpow_one_add₀ two_ne_zero]
  congr 1
  omega

/-- A whole number with a zero behind it is itself when divided by ten. -/
theorem exists_scaled_tenth {n : ℕ} (hn : 0 < n) (hlt : n < 2 ^ 49) :
    ∃ y, scaleByPower (Float.ofNat (n * 10)) (-1) = .ok y ∧ Normal .positive (Binary64.view y) n := by
  have hvalue : ((n * 10 : ℕ) : ℚ) * 10 ^ (-1 : ℤ) = n := by
    rw [zpow_neg_one]
    push_cast
    field_simp
  have hshort : Short (n : ℚ) := ⟨n, by omega, 0, by simp⟩
  obtain ⟨y, c, hy, hc, -, hexact⟩ :=
    exists_scaleByPower_within (n := n * 10) (by omega) (by omega) (j := -1) (by decide) (by decide)
  rw [hvalue] at hexact
  rw [hexact (by decide) (by decide) hshort] at hc
  exact ⟨y, hy, hc⟩

section Finite

variable {x : Float32} {s : Sign} {m : ℕ} {e : ℤ} {hm : 0 < m}
  (hx : Binary32.view x = .finite s m e hm)

include hx

theorem beside_above : Beside (binary32 m e) (2 * m + 1) (e - 1) := by
  obtain ⟨hmantissa, hhigh⟩ := Binary32.finite_bounds hx
  obtain ⟨hlow, -⟩ := Binary32.finite_canonical hx
  refine ⟨by omega, by omega, by omega, by omega, ?_⟩
  show |(m : ℚ) * 2 ^ e - _| = _
  have hdiff : (m : ℚ) * 2 ^ e - (2 * m + 1 : ℕ) * 2 ^ (e - 1) = -2 ^ (e - 1) := by
    rw [two_zpow_halves e]
    push_cast
    ring
  rw [hdiff, abs_neg, abs_of_pos (by positivity)]

omit hx in
theorem upper_eq (m : ℕ) (e : ℤ) :
    ((binary32 m e).upper : ℚ) * 2 ^ (e - 2) = (2 * m + 1 : ℕ) * 2 ^ (e - 1) := by
  have hhalves := two_zpow_halves (e - 1)
  rw [show e - 1 - 1 = e - 2 by ring] at hhalves
  rw [hhalves, show (binary32 m e).upper = 4 * m + 2 from rfl]
  push_cast
  ring

/-- The midpoint below a float; it is on a finer grid if the float is a power of two. -/
theorem exists_beside_below :
    ∃ n f, Beside (binary32 m e) n f ∧ (binary32 m e).lower * 2 ^ (e - 2) = (n : ℚ) * 2 ^ f ∧
      (Even ((n + 1) / 2) ↔ Even m) := by
  obtain ⟨hmantissa, hhigh⟩ := Binary32.finite_bounds hx
  obtain ⟨hlow, hlead⟩ := Binary32.finite_canonical hx
  have hhalves := two_zpow_halves (e - 1)
  rw [show e - 1 - 1 = e - 2 by ring] at hhalves
  by_cases hclose : m = 2 ^ 23 ∧ -149 < e
  · obtain ⟨rfl, he⟩ := hclose
    refine ⟨2 ^ 25 - 1, e - 2, ⟨by decide, by decide, by omega, by omega, ?_⟩, ?_, by decide⟩
    · show |((2 ^ 23 : ℕ) : ℚ) * 2 ^ e - _| = _
      have hdiff : ((2 ^ 23 : ℕ) : ℚ) * 2 ^ e - (2 ^ 25 - 1 : ℕ) * 2 ^ (e - 2)
          = 2 ^ (e - 2) := by
        rw [two_zpow_halves e, hhalves]
        push_cast
        ring
      rw [hdiff, abs_of_pos (by positivity)]
    · rw [Binary32.lower_two_pow he]
  · refine ⟨2 * m - 1, e - 1, ⟨by omega, by omega, by omega, by omega, ?_⟩, ?_, ?_⟩
    · show |(m : ℚ) * 2 ^ e - _| = _
      have hdiff : (m : ℚ) * 2 ^ e - (2 * m - 1 : ℕ) * 2 ^ (e - 1) = 2 ^ (e - 1) := by
        rw [two_zpow_halves e]
        push_cast [show 1 ≤ 2 * m by omega]
        ring
      rw [hdiff, abs_of_pos (by positivity)]
    · rw [hhalves, Binary32.lower_of_lt (by omega)]
      push_cast [show 1 ≤ 2 * m by omega, show 2 ≤ 4 * m by omega]
      ring
    · rw [show (2 * m - 1 + 1) / 2 = m by omega]

/-! ### Scaling the word -/

variable (tie : Tie)

theorem shortest_pos : 0 < ((binary32 m e).shortest tie).significand := by
  obtain ⟨hmantissa, hhigh⟩ := Binary32.finite_bounds hx
  have hmoderate : ((binary32 m e).shortest tie).Moderate :=
    Binary.shortest_moderate hm hmantissa hhigh
  exact hmoderate.pos

/-- Scaling the word of a shortest decimal carries it across no midpoint next to the float. -/
theorem exists_scaled_keeps_beside {n : ℕ} {f : ℤ} (h : Beside (binary32 m e) n f) :
    ∃ y c, scaleByPower (Float.ofNat ((binary32 m e).shortest tie).significand)
        ((binary32 m e).shortest tie).exponent = .ok y ∧
      Normal .positive (Binary64.view y) c ∧ Keeps n f ((binary32 m e).shortest tie).value c := by
  obtain ⟨hmantissa, hhigh⟩ := Binary32.finite_bounds hx
  obtain ⟨hlow, -⟩ := Binary32.finite_canonical hx
  obtain ⟨-, hnear⟩ := Binary.shortest_near (b := binary32 m e) tie hm
  have hword := Binary.significand_shortest_lt (b := binary32 m e) tie hm hmantissa
  have hk := Binary.le_exponent_shortest (b := binary32 m e) tie hm hlow
  have hk' := Binary.exponent_shortest_le (b := binary32 m e) tie hm hmantissa hhigh
  refine exists_scaled_keeps (shortest_pos hx tie) hword hk hk' h.low h.high h.odd h.lt ?_
  calc (2 : ℚ) ^ f = |(binary32 m e).value - n * 2 ^ f| := h.step.symm
    _ ≤ |(binary32 m e).value - ((binary32 m e).shortest tie).value|
        + |((binary32 m e).shortest tie).value - n * 2 ^ f| := abs_sub_le _ _ _
    _ ≤ |((binary32 m e).shortest tie).value - n * 2 ^ f|
        + 10 ^ ((binary32 m e).shortest tie).exponent := by
      rw [abs_sub_comm (binary32 m e).value, add_comm]
      exact add_le_add_right hnear _

/-- The scaled word of a shortest decimal is in the interval of its float. -/
theorem exists_scaled_contains :
    ∃ y c, scaleByPower (Float.ofNat ((binary32 m e).shortest tie).significand)
        ((binary32 m e).shortest tie).exponent = .ok y ∧
      Normal .positive (Binary64.view y) c ∧ (binary32 m e).Contains c := by
  obtain ⟨hin, -⟩ := Binary.shortest_near (b := binary32 m e) tie hm
  obtain ⟨n, f, hbeside, hlower, hparity⟩ := exists_beside_below hx
  have hupper := upper_eq m e
  have hhalf : (2 * m + 1 - 1) / 2 = m := by omega
  obtain ⟨y, c, hy, hc, hbelow⟩ := exists_scaled_keeps_beside hx tie (beside_above hx)
  obtain ⟨z, c', hz, hc', habove⟩ := exists_scaled_keeps_beside hx tie hbeside
  -- Both midpoints speak of the same scaled word.
  obtain rfl : y = z := Except.ok.inj (hy.symm.trans hz)
  obtain rfl := hc.unique hc'
  obtain ⟨hin_lower, hin_upper, hin_even, hin_even'⟩ := hin
  rw [show (binary32 m e).exponent = e from rfl] at hin_lower hin_upper hin_even hin_even'
  rw [hlower] at hin_lower hin_even
  rw [hupper] at hin_upper hin_even'
  obtain ⟨hle, heven⟩ := hbelow.le hin_upper fun heq => hhalf.symm ▸ hin_even' heq
  obtain ⟨hge, heven'⟩ := habove.ge hin_lower fun heq => hparity.2 (hin_even heq)
  rw [hhalf, ← hupper] at heven
  rw [hparity, ← hlower] at heven'
  exact ⟨y, c, hy, hc, hlower.trans_le hge, hle.trans_eq hupper.symm, heven', heven⟩

/-- A whole number that is written out is read with the zero after its point, and exactly. -/
theorem exists_padded_contains {d : Scaled} (hd : (binary32 m e).shortest tie = d)
    (hnonneg : 0 ≤ d.exponent) (hplaces : (Decimal.digits d.significand).length + d.exponent ≤ 13) :
    d.padded.significand < 10 ^ 14 ∧
      ∃ y c, scaleByPower (Float.ofNat d.padded.significand) d.padded.exponent = .ok y ∧
        Normal .positive (Binary64.view y) c ∧ (binary32 m e).Contains c := by
  have hpos := shortest_pos hx tie
  obtain ⟨hin, -⟩ := Binary.shortest_near (b := binary32 m e) tie hm
  rw [hd] at hpos hin
  rw [d.value_of_nonneg hnonneg] at hin
  have hlt := d.lt_of_places hnonneg (n := 13) hplaces
  have hpadded : d.padded = ⟨d.significand * 10 ^ d.exponent.toNat * 10, -1⟩ := by
    rw [Scaled.padded, Nat.pow_succ, Nat.mul_assoc]
  rw [hpadded]
  obtain ⟨y, hy, hc⟩ := exists_scaled_tenth
    (Nat.mul_pos hpos (Nat.pow_pos (by decide))) (hlt.trans (by decide))
  exact ⟨by dsimp only; omega, y, _, hy, hc, hin⟩

/-! ### Reading the numeral -/

/-- The word of the numeral of a float, scaled, is in the interval of the float. -/
theorem exists_laid_contains (negative : Bool) {n : Numeral}
    (hn : floatLayout.lay negative ((binary32 m e).shortest floatLayout.tie) = n) :
    n.scaled.significand < wordBound ∧
      ∃ y c, scaleByPower (Float.ofNat n.scaled.significand) n.scaled.exponent = .ok y ∧
        Normal .positive (Binary64.view y) c ∧ (binary32 m e).Contains c := by
  generalize hd : (binary32 m e).shortest floatLayout.tie = d at hn
  rcases floatLayout.scaled_lay negative rfl d with h | ⟨hnonneg, hplain, h⟩
  · rw [← hn, h]
    obtain ⟨hmantissa, -⟩ := Binary32.finite_bounds hx
    have hword := Binary.significand_shortest_lt (b := binary32 m e) floatLayout.tie hm hmantissa
    have hread := exists_scaled_contains hx floatLayout.tie
    rw [hd] at hword hread
    exact ⟨hword.trans (by decide), hread⟩
  · rw [← hn, h]
    obtain ⟨-, hplaces⟩ := (Bool.and_eq_true_iff.1 hplain : _ ∧ _)
    have hplaces := of_decide_eq_true hplaces
    obtain ⟨hword, hread⟩ := exists_padded_contains hx floatLayout.tie hd hnonneg (by omega)
    exact ⟨hword.trans (by decide), hread⟩

end Finite

theorem normal_signed {y : Float} {c : ℚ} (s : Sign) (h : Normal .positive (Binary64.view y) c) :
    Normal s (Binary64.view (if isNegative s then -y else y)) c := by
  cases s with
  | positive => exact h
  | negative =>
    have hneg : Normal .negative (Binary64.view y).neg c := h.neg
    show Normal .negative (Binary64.view (-y)) c
    rw [view_neg, Binary64.stored_normal hneg]
    exact hneg

/-- The text of a zero is read as a zero of its sign. -/
theorem numberOf_zero (s : Sign) :
    (numberOf (floatLayout.plain (isNegative s) [0] 1)).map Number.toFloat32
      = .ok (Float32.ofModel (Float32.Model.pack (.zero s))) := by
  have hint : (floatLayout.plain (isNegative s) [0] 1).isInteger = false :=
    floatLayout.isInteger_plain (isNegative s) rfl
  have hscaled : (floatLayout.plain (isNegative s) [0] 1).scaled = ⟨0, -1⟩ := by
    cases s <;> rfl
  have hlt : (floatLayout.plain (isNegative s) [0] 1).scaled.significand < wordBound := by
    rw [hscaled]
    decide
  have hdivide : scaleByPower (Float.ofNat 0) (-1) = .ok (Float.ofNat 0 / powerOfTen 1) := by
    simp [scaleByPower, divideByPower, greatestPower]
  rw [numberOf_of_lt hint hlt, hscaled, hdivide]
  cases s <;> rfl

theorem numberOf_numeral {x : Float32} {n : Numeral} (h : floatLayout.numeral? x = some n) :
    (numberOf n).map Number.toFloat32 = .ok x := by
  unfold Decimal.Layout.numeral? at h
  split at h
  · contradiction
  · contradiction
  · rename_i s hx
    obtain rfl := Option.some.inj h
    rw [← Binary32.ofModel_pack_view x, show Binary32.view x = .zero s from hx]
    exact numberOf_zero s
  · rename_i s m e hm hx
    have hn := Option.some.inj h
    obtain ⟨hword, y, c, hy, hc, hin⟩ := exists_laid_contains hx (isNegative s) hn
    have hint : n.isInteger = false := hn ▸ floatLayout.isInteger_lay (isNegative s) rfl _
    have hsign : n.negative = isNegative s := hn ▸ floatLayout.negative_lay (isNegative s) _
    rw [numberOf_of_lt hint hword, hy, hsign]
    exact congrArg Except.ok (Binary32.toBinary32_of_contains hx (normal_signed s hc) hin)

/-- The text of a finite float is read as that float. -/
theorem reread_of_isFinite {x : Float32} (h : x.isFinite) : reread x = x := by
  obtain ⟨n, hn, -⟩ := exists_numeral? floatLayout h
  have hdecode : decode (encode x) = (numberOf n).map Number.toFloat32 := by
    rw [decode_encode_eq_read (float_fits x)]
    show Form.read depthLimit (Value.float x).node = _
    unfold Value.float
    rw [hn]
    rfl
  unfold reread
  rw [hdecode, numberOf_numeral hn]

end Json

end LineArt
