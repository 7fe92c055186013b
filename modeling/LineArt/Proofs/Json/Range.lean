import LineArt.Proofs.Json.Scaling
import LineArt.Proofs.Json.Words

/-!
# Numerals in range

A numeral of a magnitude up to `2 ^ 1024 - 2 ^ 973` is a number, however it is written: the word
and the power of ten that it is read as come to no more than it stands for, and two roundings
of them and one of their product stay below the greatest 64-bit float.  Between that magnitude
and the greatest float the roundings may carry a product out of the range.
-/

namespace LineArt

open Decimal (valueFrom valueFrom_append)

/-! ### Words and powers as floats -/

namespace Binary64

open Float.Model (Format UnpackedFloat)
open Float.Model.UnpackedFloat (ExtendedMantissa roundWithAccuracy)
open Rounding (Represents)

theorem near_self {v : ℚ} (hv : 0 ≤ v) : Near v v where
  error := by
    rw [sub_self, abs_zero]
    positivity
  exact _ := rfl

/-- A whole number times a power of ten that are not both floats is rounded once. -/
theorem ofScientific_normal {n k : ℕ} (hn : 0 < n) (hk : k ≤ 308) (hslow : ¬ (n < 2 ^ 53 ∧ k ≤ 22))
    (hrange : InRange (n * 10 ^ k)) :
    ∃ c, Normal .positive (view (Float.ofScientific n false k)) c ∧ Near (n * 10 ^ k) c := by
  have hview : view (Float.ofScientific n false k)
      = stored (UnpackedFloat.ofScientific .binary64 n (k : ℤ)) := by
    unfold Float.ofScientific
    rw [dif_neg hslow]
    rfl
  have hround : UnpackedFloat.ofScientific .binary64 n (k : ℤ)
      = roundWithAccuracy .binary64 .positive ((n <<< 53) * 10 ^ k) (-53) .exact := by
    have hpow : (2 : ℤ) ^ Format.binary64.exponentBits = 2048 := by decide
    unfold UnpackedFloat.ofScientific
    rw [dif_neg hn.ne', if_neg (by rw [hpow]; omega), if_neg (by rw [hpow]; omega),
      if_pos (Int.natCast_nonneg k)]
    rfl
  have hexact : Represents (ExtendedMantissa.ofMantissaAndAccuracy ((n <<< 53) * 10 ^ k) .exact)
      (((n <<< 53) * 10 ^ k : ℕ) : ℚ) := rfl
  have hvalue : (n : ℚ) * (10 : ℚ) ^ k = (((n <<< 53) * 10 ^ k : ℕ) : ℚ) * 2 ^ (-53 : ℤ) := by
    rw [Nat.shiftLeft_eq, zpow_neg]
    push_cast
    field_simp
  have hlead : 2 ^ 52 ≤ (n <<< 53) * 10 ^ k := by
    rw [Nat.shiftLeft_eq]
    calc 2 ^ 52 ≤ 1 * 2 ^ 53 * 1 := by decide
      _ ≤ n * 2 ^ 53 * 10 ^ k :=
        Nat.mul_le_mul (Nat.mul_le_mul_right _ hn) (Nat.pow_pos (by decide))
  rw [hvalue] at hrange ⊢
  obtain ⟨c, hc, hnear⟩ := roundWithAccuracy_normal (s := .positive) hlead hexact hrange
  rw [hview, hround, stored_normal hc]
  exact ⟨c, hc, hnear⟩

theorem inRange_of_le {v : ℚ} (hone : 1 ≤ v) (h : v ≤ greatest) : InRange v := by
  have hleast : (2 : ℚ) ^ (-1022 : ℤ) ≤ 2 ^ (0 : ℤ) := zpow_le_zpow_right₀ one_le_two (by decide)
  rw [zpow_zero] at hleast
  exact ⟨hleast.trans hone, h⟩

theorem natCast_le_sub {n p q : ℕ} (h : n + 2 ^ q ≤ 2 ^ p) :
    (n : ℚ) ≤ 2 ^ (p : ℤ) - 2 ^ (q : ℤ) := by
  have hcast : ((n + 2 ^ q : ℕ) : ℚ) ≤ ((2 ^ p : ℕ) : ℚ) := Nat.cast_le.2 h
  rw [Nat.cast_add, Nat.cast_pow, Nat.cast_pow, Nat.cast_ofNat] at hcast
  rw [zpow_natCast, zpow_natCast]
  exact le_sub_iff_add_le.2 hcast

theorem natCast_le_greatest {n : ℕ} (h : n + 2 ^ 971 ≤ 2 ^ 1024) : (n : ℚ) ≤ greatest :=
  natCast_le_sub (p := 1024) (q := 971) h

/-- A word of 64 bits as a float. -/
theorem ofNat_near {n : ℕ} (hn : 0 < n) (hlt : n < 2 ^ 64) :
    ∃ c, Normal .positive (view (Float.ofNat n)) c ∧ Near n c := by
  by_cases hshort : n < 2 ^ 53
  · exact ⟨n, ofNat_normal hn hshort, near_self (Nat.cast_nonneg n)⟩
  · have hone : (1 : ℚ) ≤ n := Nat.one_le_cast.2 hn
    have hmax : (n : ℚ) ≤ greatest := natCast_le_greatest
      ((Nat.add_le_add_right hlt.le _).trans (by decide +kernel))
    have hrange : InRange ((n : ℚ) * 10 ^ 0) := by
      rw [pow_zero, mul_one]
      exact inRange_of_le hone hmax
    obtain ⟨c, hc, hnear⟩ := ofScientific_normal hn (by decide) (fun h => hshort h.1) hrange
    rw [pow_zero, mul_one] at hnear
    exact ⟨c, hc, hnear⟩

end Binary64

namespace Json

open Binary64 (InRange Near Normal greatest inRange_of_le mul_normal natCast_le_greatest ofNat_near
  ofScientific_normal view view_mul)

theorem powerOfTen_near {k : ℕ} (hk : k ≤ greatestPower) :
    ∃ b, Normal .positive (view (powerOfTen k)) b ∧ |b - 10 ^ k| ≤ 10 ^ k / 2 ^ 53 := by
  by_cases hsmall : k ≤ 50
  · obtain ⟨b, hb, herror, -⟩ := exists_power hsmall
    exact ⟨b, hb, herror⟩
  · have hone : (1 : ℚ) ≤ 10 ^ k := one_le_pow₀ (by norm_num)
    have hmax : 10 ^ k + 2 ^ 971 ≤ 2 ^ 1024 :=
      (Nat.add_le_add_right (Nat.pow_le_pow_right (by decide) hk) _).trans (by decide +kernel)
    have hcast := natCast_le_greatest hmax
    rw [Nat.cast_pow, Nat.cast_ofNat] at hcast
    have hrange : InRange (((1 : ℕ) : ℚ) * 10 ^ k) := by
      rw [Nat.cast_one, one_mul]
      exact inRange_of_le hone hcast
    obtain ⟨b, hb, hnear⟩ := ofScientific_normal one_pos hk (fun h => by omega) hrange
    rw [Nat.cast_one, one_mul] at hnear
    exact ⟨b, hb, hnear.error⟩

/-! ### Products in range -/

/-- A magnitude up to which all numerals are numbers: three floats below the greatest. -/
def greatestSafe : ℚ := 2 ^ (1024 : ℤ) - 2 ^ (973 : ℤ)

/-- Below the safe magnitude there is room for two roundings. -/
theorem greatestSafe_mul_le : greatestSafe * ((1 + 1 / 2 ^ 53) * (1 + 1 / 2 ^ 53)) ≤ greatest := by
  have htop : (2 : ℚ) ^ (1024 : ℤ) = 2 ^ 53 * 2 ^ (971 : ℤ) := by
    rw [← zpow_natCast, ← zpow_add₀ two_ne_zero]
    rfl
  have hfour : (2 : ℚ) ^ (973 : ℤ) = 2 ^ 2 * 2 ^ (971 : ℤ) := by
    rw [← zpow_natCast, ← zpow_add₀ two_ne_zero]
    rfl
  have hunit : (0 : ℚ) < 2 ^ (971 : ℤ) := by positivity
  rw [greatestSafe, greatest, htop, hfour]
  generalize (2 : ℚ) ^ (971 : ℤ) = unit at hunit ⊢
  linarith

theorem le_greatestPower {n k : ℕ} (hn : 0 < n) (h : (n : ℚ) * 10 ^ k ≤ greatestSafe) :
    k ≤ greatestPower := by
  by_contra hk
  have hbound : 2 ^ 1024 ≤ 10 ^ (greatestPower + 1) := by decide +kernel
  have hpow : 2 ^ 1024 ≤ n * 10 ^ k :=
    calc 2 ^ 1024 ≤ 10 ^ (greatestPower + 1) := hbound
      _ ≤ 10 ^ k := Nat.pow_le_pow_right (by decide) (not_le.1 hk)
      _ ≤ n * 10 ^ k := Nat.le_mul_of_pos_left _ hn
  have hcast : ((2 ^ 1024 : ℕ) : ℚ) ≤ ((n * 10 ^ k : ℕ) : ℚ) := Nat.cast_le.2 hpow
  rw [Nat.cast_mul, Nat.cast_pow, Nat.cast_pow, Nat.cast_ofNat, Nat.cast_ofNat] at hcast
  have hsafe : greatestSafe < 2 ^ (1024 : ℤ) := sub_lt_self _ (by positivity)
  exact absurd (hcast.trans h) (not_le.2 hsafe)

/-- The product of a word and a power, each rounded once. -/
theorem inRange_of_near {n k : ℕ} {a b : ℚ} (hn : 0 < n) (h : (n : ℚ) * 10 ^ k ≤ greatestSafe)
    (ha : |a - n| ≤ n / 2 ^ 53) (hb : |b - 10 ^ k| ≤ 10 ^ k / 2 ^ 53) : InRange (a * b) := by
  have hone : (1 : ℚ) ≤ n := Nat.one_le_cast.2 hn
  have hpow : (1 : ℚ) ≤ 10 ^ k := one_le_pow₀ (by norm_num)
  obtain ⟨hlow, hhigh⟩ := abs_le.1 ha
  obtain ⟨hlow', hhigh'⟩ := abs_le.1 hb
  have hdouble : (0 : ℚ) ≤ (1 + 1 / 2 ^ 53) * (1 + 1 / 2 ^ 53) := by positivity
  have hleast : (2 : ℚ) ^ (-1022 : ℤ) ≤ 2 ^ (-2 : ℤ) := zpow_le_zpow_right₀ one_le_two (by decide)
  have hquarter : (2 : ℚ) ^ (-2 : ℤ) = 1 / 2 * (1 / 2) := by norm_num
  refine ⟨?_, ?_⟩
  · rw [hquarter] at hleast
    exact hleast.trans (mul_le_mul (by linarith) (by linarith) (by norm_num) (by linarith))
  · calc a * b ≤ (n * (1 + 1 / 2 ^ 53)) * (10 ^ k * (1 + 1 / 2 ^ 53)) :=
          mul_le_mul (by linarith) (by linarith) (by linarith) (by positivity)
      _ = n * 10 ^ k * ((1 + 1 / 2 ^ 53) * (1 + 1 / 2 ^ 53)) := by ring
      _ ≤ greatestSafe * ((1 + 1 / 2 ^ 53) * (1 + 1 / 2 ^ 53)) :=
          mul_le_mul_of_nonneg_right h hdouble
      _ ≤ greatest := greatestSafe_mul_le

theorem view_zero_mul {w : Float.Model.UnpackedFloat} {b : ℚ} (hw : Normal .positive w b) :
    Float.Model.UnpackedFloat.mul .binary64 (.zero .positive) w = .zero .positive := by
  cases hw
  rfl

theorem exists_multiplyByPower_of_le {n k : ℕ} (hn : n < 2 ^ 64)
    (h : (n : ℚ) * 10 ^ k ≤ greatestSafe) :
    ∃ x, multiplyByPower (Float.ofNat n) k = .ok x := by
  rcases n.eq_zero_or_pos with rfl | hpos
  · unfold multiplyByPower
    split
    · rename_i hk
      obtain ⟨b, hb, -⟩ := powerOfTen_near hk
      have hzero : view (Float.ofNat 0) = .zero .positive := by rfl
      have hproduct : (Float.ofNat 0 * powerOfTen k).isInf = false := by
        show (view (Float.ofNat 0 * powerOfTen k)).isInf = false
        rw [view_mul, hzero, view_zero_mul hb]
        rfl
      exact ⟨Float.ofNat 0 * powerOfTen k, by simp [hproduct]⟩
    · exact ⟨Float.ofNat 0, by rfl⟩
  · have hk := le_greatestPower hpos h
    obtain ⟨a, ha, hnear⟩ := ofNat_near hpos hn
    obtain ⟨b, hb, herror⟩ := powerOfTen_near hk
    have hrange := inRange_of_near hpos h hnear.error herror
    obtain ⟨c, hc, -⟩ := mul_normal ha hb hrange
    rw [← view_mul] at hc
    have hproduct : (Float.ofNat n * powerOfTen k).isInf = false := hc.isInf
    exact ⟨Float.ofNat n * powerOfTen k, by simp [multiplyByPower, hk, hproduct]⟩

theorem exists_scaleByPower_of_le {n : ℕ} {e : ℤ} (hn : n < 2 ^ 64)
    (h : (n : ℚ) * 10 ^ e ≤ greatestSafe) : ∃ x, scaleByPower (Float.ofNat n) e = .ok x := by
  unfold scaleByPower
  split
  · rename_i he
    obtain ⟨k, rfl⟩ := Int.eq_ofNat_of_zero_le he
    rw [zpow_natCast] at h
    exact exists_multiplyByPower_of_le hn h
  · exact ⟨_, rfl⟩

/-! ### Digits that are taken up -/

theorem mul_pow_le_valueFrom (word : ℕ) (ds : List Digit) :
    word * 10 ^ ds.length ≤ valueFrom word ds := by
  induction ds generalizing word with
  | nil => simp [valueFrom]
  | cons d ds ih =>
    calc word * 10 ^ (ds.length + 1) = word * 10 * 10 ^ ds.length := by ring
      _ ≤ (word * 10 + d.val) * 10 ^ ds.length := Nat.mul_le_mul_right _ (Nat.le_add_right _ _)
      _ ≤ valueFrom (word * 10 + d.val) ds := ih _

theorem valueFrom_le_mul_pow {word bound : ℕ} (h : word < bound) (ds : List Digit) :
    valueFrom word ds ≤ bound * 10 ^ ds.length := by
  induction ds generalizing word bound with
  | nil => simpa [valueFrom] using h.le
  | cons d ds ih =>
    have hd := d.isLt
    calc valueFrom (word * 10 + d.val) ds ≤ bound * 10 * 10 ^ ds.length := ih (by omega)
      _ = bound * 10 ^ (ds.length + 1) := by ring

/-- The digits taken up, those left over, and why the first of these was left. -/
theorem exists_taken (word : ℕ) (ds : List Digit) :
    ∃ taken, ds = taken ++ (takeWord word ds).2 ∧ (takeWord word ds).1 = valueFrom word taken ∧
      ∀ d rest, (takeWord word ds).2 = d :: rest →
        wordBound ≤ (takeWord word ds).1 * 10 + d.val := by
  induction ds generalizing word with
  | nil => exact ⟨[], rfl, rfl, fun d rest h => by contradiction⟩
  | cons d ds ih =>
    unfold takeWord
    split
    · obtain ⟨taken, hds, hword, hleft⟩ := ih (word * 10 + d.val)
      exact ⟨d :: taken, congrArg (d :: ·) hds, hword, hleft⟩
    · rename_i hfull
      refine ⟨[], rfl, rfl, fun e rest h => ?_⟩
      obtain ⟨rfl, -⟩ := List.cons.inj h
      exact not_lt.1 hfull

/-- Going on with the fraction after digits of the whole part were left over takes up less than
these. -/
theorem taken_mul_pow_le {word : ℕ} {dropped taken : List Digit}
    (hfull : ∀ d rest, dropped = d :: rest → wordBound ≤ word * 10 + d.val)
    (hfits : valueFrom word taken < wordBound) :
    valueFrom word taken * 10 ^ dropped.length ≤ valueFrom (valueFrom word dropped) taken := by
  cases dropped with
  | nil => simp [valueFrom]
  | cons d rest =>
    have hword := hfull d rest rfl
    cases taken with
    | nil => exact mul_pow_le_valueFrom word (d :: rest)
    | cons f fs =>
      -- The digit `d` did not fit behind the word and `f` does, so `f` is the smaller one.
      have hf : word * 10 + f.val < wordBound :=
        (le_valueFrom (word * 10 + f.val) fs).trans_lt hfits
      have hle : valueFrom (word * 10 + f.val) fs ≤ (word * 10 + d.val) * 10 ^ fs.length :=
        valueFrom_le_mul_pow (by omega) fs
      calc valueFrom (word * 10 + f.val) fs * 10 ^ (rest.length + 1)
          ≤ (word * 10 + d.val) * 10 ^ fs.length * 10 ^ (rest.length + 1) :=
            Nat.mul_le_mul_right _ hle
        _ = (word * 10 + d.val) * 10 ^ rest.length * 10 ^ (fs.length + 1) := by ring
        _ ≤ valueFrom (word * 10 + d.val) rest * 10 ^ (fs.length + 1) :=
            Nat.mul_le_mul_right _ (mul_pow_le_valueFrom _ rest)
        _ ≤ valueFrom (valueFrom (word * 10 + d.val) rest) (f :: fs) :=
            mul_pow_le_valueFrom _ (f :: fs)

/-- The word of a numeral comes to no more than its digits. -/
theorem word_mul_pow_le (whole fraction : List Digit) :
    (takeWord (takeWord 0 whole).1 fraction).1
        * 10 ^ ((takeWord 0 whole).2.length + (takeWord (takeWord 0 whole).1 fraction).2.length)
      ≤ Decimal.value (whole ++ fraction) := by
  have hzero : 0 < wordBound := by decide
  obtain ⟨hword, -⟩ := takeWord_bounds whole hzero
  obtain ⟨hfits, -⟩ := takeWord_bounds fraction hword
  obtain ⟨first, hwhole, hvalue, hfull⟩ := exists_taken 0 whole
  obtain ⟨taken, hfraction, hvalue', -⟩ := exists_taken (takeWord 0 whole).1 fraction
  generalize takeWord (takeWord 0 whole).1 fraction = second at *
  generalize takeWord 0 whole = head at *
  obtain ⟨word, dropped⟩ := head
  obtain ⟨last, unused⟩ := second
  dsimp only at *
  subst hvalue'
  calc valueFrom word taken * 10 ^ (dropped.length + unused.length)
      = valueFrom word taken * 10 ^ dropped.length * 10 ^ unused.length := by ring
    _ ≤ valueFrom (valueFrom word dropped) taken * 10 ^ unused.length :=
        Nat.mul_le_mul_right _ (taken_mul_pow_le hfull hfits)
    _ ≤ valueFrom (valueFrom (valueFrom word dropped) taken) unused := mul_pow_le_valueFrom _ unused
    _ = Decimal.value (whole ++ fraction) := by
        rw [hwhole, hfraction, hvalue]
        simp only [Decimal.value, valueFrom_append]

/-- A numeral of a safe magnitude is a number. -/
theorem exists_numberOf_of_le {n : Numeral} (h : n.scaled.value ≤ greatestSafe) :
    ∃ x, numberOf n = .ok x := by
  have hzero : 0 < wordBound := by decide
  obtain ⟨hword, -⟩ := takeWord_bounds n.whole hzero
  obtain ⟨hfits, -⟩ := takeWord_bounds n.fraction hword
  have hle := word_mul_pow_le n.whole n.fraction
  unfold numberOf
  generalize takeWord 0 n.whole = first at *
  dsimp only
  generalize takeWord first.1 n.fraction = second at *
  split
  · exact ⟨_, rfl⟩
  · split
    · exact ⟨_, rfl⟩
    · have hexponent : (first.2.length : ℤ) - ((n.fraction.length : ℤ) - second.2.length)
          + exponentValue n.exponent
            = (first.2.length + second.2.length : ℕ) + n.scaled.exponent := by
        rw [Numeral.scaled]
        push_cast
        ring
      have hscaled : (second.1 : ℚ)
          * 10 ^ (((first.2.length + second.2.length : ℕ) : ℤ) + n.scaled.exponent)
            ≤ greatestSafe := by
        have hcast := Nat.cast_le (α := ℚ).2 hle
        rw [zpow_add₀ (by norm_num), zpow_natCast, ← mul_assoc]
        push_cast at hcast
        exact (mul_le_mul_of_nonneg_right hcast (by positivity)).trans h
      obtain ⟨x, hx⟩ := exists_scaleByPower_of_le hfits hscaled
      rw [hexponent, hx]
      exact ⟨_, rfl⟩

end Json

end LineArt
