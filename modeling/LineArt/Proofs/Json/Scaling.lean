import LineArt.Json.Number
import LineArt.Proofs.Binary64.Accuracy

/-!
# Scaling a word

How near a word that is scaled by a power of ten comes to the decimal it was read from.
The power may be rounded before it is used, so there are two roundings; up to the 22nd
power there is only one, and none that loses anything where the decimal is short.
-/

namespace LineArt.Json

open Binary64 (Middle Near Normal Short div_normal mul_normal ofNat_normal view view_div view_mul)

/-! ### Powers of ten -/

/-- Whether the float that stands for a power of ten is at most one rounding away from it,
and exact up to the 22nd. -/
def powerIsNear (k : ℕ) : Bool :=
  match view (powerOfTen k) with
  | .finite .positive m e _ =>
    decide (m.log2 = 52 ∧ -1074 ≤ e ∧ e ≤ 971
      ∧ |(m * 2 ^ e : ℚ) - 10 ^ k| ≤ (if k ≤ 22 then 0 else 10 ^ k / 2 ^ 53))
  | _ => false

theorem powerIsNear_of_lt : ∀ k : Fin 51, powerIsNear k = true := by
  decide +kernel

theorem exists_power {k : ℕ} (hk : k ≤ 50) :
    ∃ b, Normal .positive (view (powerOfTen k)) b ∧ |b - 10 ^ k| ≤ 10 ^ k / 2 ^ 53 ∧
      (k ≤ 22 → b = 10 ^ k) := by
  have hnear := powerIsNear_of_lt ⟨k, by omega⟩
  unfold powerIsNear at hnear
  dsimp only at hnear
  split at hnear
  · rename_i m e hm hview
    obtain ⟨hbits, hlow, hhigh, herror⟩ := of_decide_eq_true hnear
    refine ⟨m * 2 ^ e, hview ▸ .mk hm hbits hlow hhigh, ?_, ?_⟩
    · refine herror.trans ?_
      split
      · positivity
      · exact le_rfl
    · intro hexact
      rw [if_pos hexact] at herror
      exact sub_eq_zero.1 (abs_nonpos_iff.1 herror)
  · contradiction

/-! ### Two roundings -/

/-- Whether `c` is as near to `v` as two roundings leave it. -/
def Within (v c : ℚ) : Prop := |c - v| ≤ 9 / 2 ^ 55 * v

variable {v q c : ℚ}

theorem within_of_near (hv : 0 ≤ v) (herror : |q - v| ≤ 17 / 2 ^ 57 * v) (hnear : Near q c) :
    Within v c := by
  obtain ⟨hlow, hhigh⟩ := abs_le.1 herror
  obtain ⟨hlow', hhigh'⟩ := abs_le.1 hnear.error
  unfold Within
  rw [abs_le]
  constructor <;> linarith

/-- The numbers that arise from words of 53 bits and powers of ten. -/
theorem middle_of_bounds (hlow : 1 / 10 ^ 51 ≤ v) (hhigh : v ≤ 10 ^ 70) : Middle v := by
  have hmin : (2 : ℚ) ^ (-250 : ℤ) ≤ 1 / 10 ^ 51 := by norm_num
  have hmax : (10 : ℚ) ^ 70 < 2 ^ (250 : ℤ) := by norm_num
  exact ⟨hmin.trans hlow, hhigh.trans_lt hmax⟩

theorem le_power {k : ℕ} {b : ℚ} (hb : |b - 10 ^ k| ≤ 10 ^ k / 2 ^ 53) :
    (1 : ℚ) / 2 ≤ b ∧ b ≤ 2 * 10 ^ k := by
  obtain ⟨hlow, hhigh⟩ := abs_le.1 hb
  have hone : (1 : ℚ) ≤ 10 ^ k := one_le_pow₀ (by norm_num)
  constructor <;> linarith

/-- How far a quotient moves with its divisor. -/
theorem abs_div_sub_div_le {n k : ℕ} {b : ℚ} (hb : 0 < b) (herror : |b - 10 ^ k| ≤ 10 ^ k / 2 ^ 53) :
    |n / b - n / 10 ^ k| ≤ n / b / 2 ^ 53 := by
  have hpow : (0 : ℚ) < 10 ^ k := by positivity
  have hnonneg : (0 : ℚ) ≤ n / b := by positivity
  have hdiff : (n : ℚ) / b - n / 10 ^ k = n / b * ((10 ^ k - b) / 10 ^ k) := by
    field_simp
  have hratio : |(10 ^ k - b) / 10 ^ k| ≤ 1 / 2 ^ 53 := by
    rw [abs_div, abs_of_pos hpow, abs_sub_comm, div_le_iff₀ hpow]
    linarith
  rw [hdiff, abs_mul, abs_of_nonneg hnonneg, div_eq_mul_one_div (n / b : ℚ) (2 ^ 53)]
  exact mul_le_mul_of_nonneg_left hratio hnonneg

section Word

variable {n k : ℕ} (hn : 0 < n) (hlt : n < 2 ^ 53)

include hn hlt

theorem middle_mul {b : ℚ} (hlow : 1 / 2 ≤ b) (hhigh : b ≤ 2 * 10 ^ k) (hk : k ≤ 50) :
    Middle (n * b) := by
  have hone : (1 : ℚ) ≤ n := Nat.one_le_cast.2 hn
  have hword : (n : ℚ) ≤ ((2 ^ 53 : ℕ) : ℚ) := Nat.cast_le.2 hlt.le
  push_cast at hword
  have hpow : (10 : ℚ) ^ k ≤ 10 ^ 50 := pow_le_pow_right₀ (by norm_num) hk
  have hpos : (0 : ℚ) ≤ b := by linarith
  apply middle_of_bounds
  · calc (1 : ℚ) / 10 ^ 51 ≤ 1 / 2 := by norm_num
      _ ≤ b := hlow
      _ ≤ n * b := le_mul_of_one_le_left hpos hone
  · calc (n : ℚ) * b ≤ 2 ^ 53 * (2 * 10 ^ 50) :=
        mul_le_mul hword (hhigh.trans (by linarith)) hpos (by norm_num)
      _ ≤ 10 ^ 70 := by norm_num

theorem middle_div {b : ℚ} (hlow : 1 / 2 ≤ b) (hhigh : b ≤ 2 * 10 ^ k) (hk : k ≤ 50) :
    Middle (n / b) := by
  have hone : (1 : ℚ) ≤ n := Nat.one_le_cast.2 hn
  have hword : (n : ℚ) ≤ ((2 ^ 53 : ℕ) : ℚ) := Nat.cast_le.2 hlt.le
  push_cast at hword
  have hpow : (10 : ℚ) ^ k ≤ 10 ^ 50 := pow_le_pow_right₀ (by norm_num) hk
  have hpos : (0 : ℚ) < b := by linarith
  apply middle_of_bounds
  · rw [le_div_iff₀ hpos]
    linarith
  · rw [div_le_iff₀ hpos]
    linarith

variable (hk : k ≤ 50)

include hk

/-- A word multiplied by a power of ten. -/
theorem exists_multiplyByPower_within :
    ∃ y c, multiplyByPower (Float.ofNat n) k = .ok y ∧ Normal .positive (view y) c ∧
      Within (n * 10 ^ k) c ∧ (k ≤ 22 → Short (n * 10 ^ k) → c = n * 10 ^ k) := by
  obtain ⟨b, hb, herror, hexact⟩ := exists_power hk
  obtain ⟨hlow, hhigh⟩ := le_power herror
  obtain ⟨c, hc, hnear⟩ :=
    mul_normal (ofNat_normal hn hlt) hb (middle_mul hn hlt hlow hhigh hk).inRange
  rw [← view_mul] at hc
  have hfinite : (Float.ofNat n * powerOfTen k).isInf = false := hc.isInf
  have hgreatest : k ≤ greatestPower := hk.trans (by decide)
  have hproduct : |n * b - n * 10 ^ k| ≤ n * 10 ^ k / 2 ^ 53 := by
    rw [← mul_sub, abs_mul, Nat.abs_cast, mul_div_assoc]
    exact mul_le_mul_of_nonneg_left herror (Nat.cast_nonneg n)
  have hpos : (0 : ℚ) ≤ n * 10 ^ k := by positivity
  refine ⟨Float.ofNat n * powerOfTen k, c, ?_, hc, ?_, ?_⟩
  · simp [multiplyByPower, hgreatest, hfinite]
  · exact within_of_near hpos (by linarith) hnear
  · intro hk22 hshort
    rw [hexact hk22] at hnear
    exact hnear.exact hshort

/-- A word divided by a power of ten. -/
theorem exists_divideByPower_within :
    ∃ c, Normal .positive (view (divideByPower (Float.ofNat n) k)) c ∧
      Within (n / 10 ^ k) c ∧ (k ≤ 22 → Short (n / 10 ^ k) → c = n / 10 ^ k) := by
  obtain ⟨b, hb, herror, hexact⟩ := exists_power hk
  obtain ⟨hlow, hhigh⟩ := le_power herror
  obtain ⟨c, hc, hnear⟩ :=
    div_normal (ofNat_normal hn hlt) hb (middle_div hn hlt hlow hhigh hk)
  rw [← view_div] at hc
  have hgreatest : k ≤ greatestPower := hk.trans (by decide)
  have hdivide : divideByPower (Float.ofNat n) k = Float.ofNat n / powerOfTen k := by
    rw [divideByPower, if_pos hgreatest]
  have hquotient := abs_div_sub_div_le (n := n) hb.pos herror
  have hpos : (0 : ℚ) ≤ n / 10 ^ k := by positivity
  rw [hdivide]
  refine ⟨c, hc, ?_, ?_⟩
  · obtain ⟨hbelow, habove⟩ := abs_le.1 hquotient
    refine within_of_near hpos (abs_le.2 ⟨?_, ?_⟩) hnear <;> linarith
  · intro hk22 hshort
    rw [hexact hk22] at hnear
    exact hnear.exact hshort

end Word

/-- A word of 53 bits scaled by a moderate power of ten: two roundings at most, and none that
loses anything where the power is exact and the result is short. -/
theorem exists_scaleByPower_within {n : ℕ} (hn : 0 < n) (hlt : n < 2 ^ 53) {j : ℤ}
    (hlow : -50 ≤ j) (hhigh : j ≤ 50) :
    ∃ y c, scaleByPower (Float.ofNat n) j = .ok y ∧ Normal .positive (view y) c ∧
      Within (n * 10 ^ j) c ∧
      (-22 ≤ j → j ≤ 22 → Short (n * 10 ^ j) → c = n * 10 ^ j) := by
  unfold scaleByPower
  split
  · rename_i hj
    obtain ⟨k, rfl⟩ := Int.eq_ofNat_of_zero_le hj
    rw [zpow_natCast, Int.toNat_natCast]
    obtain ⟨y, c, hy, hc, hwithin, hexact⟩ :=
      exists_multiplyByPower_within hn hlt (k := k) (by omega)
    exact ⟨y, c, hy, hc, hwithin, fun _ h => hexact (by omega)⟩
  · rename_i hj
    obtain ⟨k, hk⟩ := Int.eq_ofNat_of_zero_le (a := -j) (by omega)
    obtain rfl : j = -(k : ℤ) := by omega
    rw [zpow_neg, zpow_natCast, ← div_eq_mul_inv, neg_neg, Int.toNat_natCast]
    obtain ⟨c, hc, hwithin, hexact⟩ := exists_divideByPower_within hn hlt (k := k) (by omega)
    exact ⟨_, c, rfl, hc, hwithin, fun h _ => hexact (by omega)⟩

end LineArt.Json
