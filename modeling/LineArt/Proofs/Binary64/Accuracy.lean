import LineArt.Proofs.Rounding

/-!
# Binary64: accuracy

How near a product or a quotient of 64-bit floats comes to the exact one.  Well inside the
range one rounding loses at most one part in `2 ^ 53`, and nothing at all where the exact
result has a mantissa that fits.
-/

namespace LineArt.Binary64

open Float.Model (Format UnpackedFloat totalExponent)
open Float.Model.UnpackedFloat (Accuracy ExtendedMantissa Sign accuracyOfFraction divCore
  packComponents round roundWithAccuracy unpackExponent_packComponents
  unpackMantissa_packComponents)
open Rounding (IsRounded Represents exists_round exists_roundWithAccuracy isRounded_natCast
  log2_shiftLeft mul_two_zpow_sub normalize_pos place settled lt_two_zpow two_zpow_le)

/-! ### Normal numbers -/

/-- A number with its leading bit in place, as it is stored, and its magnitude. -/
inductive Normal (s : Sign) : UnpackedFloat → ℚ → Prop where
  | mk {m : ℕ} {e : ℤ} (hm : 0 < m) (hbits : m.log2 = 52) (hlow : -1074 ≤ e) (hhigh : e ≤ 971) :
    Normal s (.finite s m e hm) (m * 2 ^ e)

variable {s t : Sign} {u w : UnpackedFloat} {a b : ℚ}

theorem Normal.neg (h : Normal s u a) : Normal (-s) u.neg a := by
  obtain ⟨hm, hbits, hlow, hhigh⟩ := h
  exact .mk hm hbits hlow hhigh

theorem Normal.pos (h : Normal s u a) : 0 < a := by
  obtain ⟨hm, hbits, hlow, hhigh⟩ := h
  positivity

theorem Normal.unique (h : Normal s u a) (h' : Normal s u b) : a = b := by
  obtain ⟨hm, hbits, hlow, hhigh⟩ := h
  cases h'
  rfl

theorem Normal.isInf (h : Normal s u a) : u.isInf = false := by
  obtain ⟨hm, hbits, hlow, hhigh⟩ := h
  rfl

theorem stored_normal (h : Normal s u a) : stored u = u := by
  obtain @⟨m, e, hm, hbits, hlow, hhigh⟩ := h
  have hbias : (Format.binary64.exponentBias : ℤ) = 1023 := by decide
  obtain ⟨hle, hlt⟩ := (Nat.log2_eq_iff hm.ne').1 hbits
  generalize hk : (e + Format.binary64.exponentBias + (52 : ℕ)).toNat = k
  have hk' : (k : ℤ) = e + 1075 := by omega
  have hword : (BitVec.ofNat 11 k).toNat = k := by
    rw [BitVec.toNat_ofNat]
    omega
  have hones : BitVec.ofNat 11 k ≠ -1#11 := by
    intro h
    have hmax := congrArg BitVec.toNat h
    rw [hword] at hmax
    simp at hmax
    omega
  have hzero : BitVec.ofNat 11 k ≠ 0#11 := by
    intro h
    have hmin := congrArg BitVec.toNat h
    rw [hword] at hmin
    simp at hmin
    omega
  have hlead : (1#1 ++ BitVec.ofNat 52 m).toNat = m := by
    rw [Binary32.toNat_implicit, BitVec.toNat_ofNat]
    omega
  have hfits : m.log2 + 1 = Format.binary64.mantissaBits := by
    rw [hbits]
    rfl
  simp only [stored, UnpackedFloat.pack, hk]
  rw [if_neg (by omega), if_pos hfits]
  simp only [UnpackedFloat.unpack, unpackExponent_packComponents, unpackMantissa_packComponents,
    Binary32.unpackSign_packComponents, Binary32.ofBitVec_toBitVec]
  rw [if_neg hones, if_neg hzero]
  simp only [hlead, hword, hbias]
  congr 1
  push_cast
  omega

/-! ### One rounding -/

/-- A number whose mantissa fits without rounding. -/
def Short (v : ℚ) : Prop := ∃ n : ℕ, n ≤ 2 ^ 53 ∧ ∃ k : ℤ, v = n * 2 ^ k

/-- What a number became in one rounding. -/
structure Near (v c : ℚ) : Prop where
  error : |c - v| ≤ v / 2 ^ 53
  exact : Short v → c = v

/-- The greatest 64-bit float. -/
def greatest : ℚ := 2 ^ (1024 : ℤ) - 2 ^ (971 : ℤ)

/-- A number from the least normal float to the greatest. -/
def InRange (v : ℚ) : Prop := 2 ^ (-1022 : ℤ) ≤ v ∧ v ≤ greatest

theorem lt_two_zpow_of_inRange {v : ℚ} (h : InRange v) : v < 2 ^ (1024 : ℤ) :=
  h.2.trans_lt (sub_lt_self _ (by positivity))

/-- A number of the middle of the range. -/
def Middle (v : ℚ) : Prop := 2 ^ (-250 : ℤ) ≤ v ∧ v < 2 ^ (250 : ℤ)

theorem Middle.inRange {v : ℚ} (h : Middle v) : InRange v := by
  have hlow : (2 : ℚ) ^ (-1022 : ℤ) ≤ 2 ^ (-250 : ℤ) := zpow_le_zpow_right₀ one_le_two (by decide)
  have hhigh : (2 : ℚ) ^ (250 : ℤ) ≤ 2 ^ (1023 : ℤ) := zpow_le_zpow_right₀ one_le_two (by decide)
  have hlast : (2 : ℚ) ^ (971 : ℤ) ≤ 2 ^ (1023 : ℤ) := zpow_le_zpow_right₀ one_le_two (by decide)
  have htop : (2 : ℚ) ^ (1024 : ℤ) = 2 ^ (1023 : ℤ) * 2 := zpow_add_one₀ two_ne_zero 1023
  refine ⟨hlow.trans h.1, h.2.le.trans ?_⟩
  rw [greatest, le_sub_iff_add_le, htop, mul_two]
  exact add_le_add hhigh hlast

section Rounded

variable {v : ℚ} {p : ℤ} {r : ℕ} (hlow : 2 ^ (p + 52) ≤ v)

theorem mul_two_zpow_cancel (v : ℚ) (p : ℤ) : v * 2 ^ (-p) * 2 ^ p = v := by
  rw [mul_assoc, ← zpow_add₀ two_ne_zero, neg_add_cancel, zpow_zero, mul_one]

include hlow

theorem two_pow_le_scaled : 2 ^ 52 ≤ v * 2 ^ (-p) := by
  have hpow : (2 : ℚ) ^ (p + 52) * 2 ^ (-p) = 2 ^ 52 := by
    rw [← zpow_add₀ two_ne_zero, show p + 52 + -p = (52 : ℕ) by omega, zpow_natCast]
  rw [← hpow]
  exact mul_le_mul_of_nonneg_right hlow (by positivity)

omit hlow in
/-- A short number that reaches up to its place is a whole multiple of it. -/
theorem exists_scaled_eq {n : ℕ} {k : ℤ} (hlow : (2 : ℚ) ^ (p + 52) ≤ n * 2 ^ k)
    (hn : n ≤ 2 ^ 53) : ∃ i : ℕ, (n : ℚ) * 2 ^ k * 2 ^ (-p) = i := by
  have hscaled := two_pow_le_scaled hlow
  rw [mul_two_zpow_sub] at hscaled ⊢
  by_cases hk : p ≤ k
  · refine ⟨n * 2 ^ (k - p).toNat, ?_⟩
    have hcast : k - p = ((k - p).toNat : ℤ) := by omega
    rw [hcast, zpow_natCast]
    push_cast
    rfl
  · -- With an exponent below the place, a mantissa reaches up to `2 ^ 52` there and no further.
    refine ⟨2 ^ 52, ?_⟩
    have hhalf : (2 : ℚ) ^ (k - p) ≤ 2 ^ (-1 : ℤ) := zpow_le_zpow_right₀ one_le_two (by omega)
    have hcast : (n : ℚ) ≤ ((2 ^ 53 : ℕ) : ℚ) := Nat.cast_le.2 hn
    push_cast at hcast
    have hprod : (n : ℚ) * 2 ^ (k - p) ≤ 2 ^ 53 * 2 ^ (-1 : ℤ) :=
      mul_le_mul hcast hhalf (by positivity) (by positivity)
    have hhalves : (2 : ℚ) ^ 53 * 2 ^ (-1 : ℤ) = 2 ^ 52 := by norm_num
    push_cast
    linarith

variable (hr : IsRounded (v * 2 ^ (-p)) r)

include hr

theorem two_pow_le_rounded : 2 ^ 52 ≤ r := by
  have hscaled := two_pow_le_scaled hlow
  have hupper := hr.upper
  have hlt : ((2 ^ 52 : ℕ) : ℚ) < (r + 1 : ℕ) := by
    push_cast
    linarith
  have hlt := Nat.cast_lt.1 hlt
  omega

theorem near_rounded : Near v (r * 2 ^ p) where
  error := by
    have hscaled := two_pow_le_scaled hlow
    have hcancel := mul_two_zpow_cancel v p
    have hpos : (0 : ℚ) < 2 ^ p := by positivity
    have hdiff : |(r : ℚ) - v * 2 ^ (-p)| ≤ v * 2 ^ (-p) / 2 ^ 53 := by
      rw [abs_le]
      constructor <;> linarith [hr.lower, hr.upper]
    calc |r * 2 ^ p - v| = |((r : ℚ) - v * 2 ^ (-p)) * 2 ^ p| := by rw [sub_mul, hcancel]
      _ = |(r : ℚ) - v * 2 ^ (-p)| * 2 ^ p := by rw [abs_mul, abs_of_pos hpos]
      _ ≤ v * 2 ^ (-p) / 2 ^ 53 * 2 ^ p := mul_le_mul_of_nonneg_right hdiff hpos.le
      _ = v / 2 ^ 53 := by rw [div_mul_eq_mul_div, hcancel]
  exact := by
    rintro ⟨n, hn, k, rfl⟩
    obtain ⟨i, hi⟩ := exists_scaled_eq hlow hn
    rw [hi] at hr
    have heq : r = i := hr.unique (isRounded_natCast i)
    rw [heq, ← hi, mul_two_zpow_cancel]

end Rounded

theorem normal_settled {r : ℕ} {p : ℤ} (hlow : 2 ^ 52 ≤ r) (hle : r ≤ 2 ^ 53) (hp : -1074 ≤ p)
    (hp' : p ≤ 971) (hcarry : r = 2 ^ 53 → p ≤ 970) :
    Normal s (settled .binary64 s r p) (r * 2 ^ p) := by
  have hbits : Format.binary64.mantissaBits = 53 := rfl
  have hplaces : Format.binary64.mantissaBitsWithoutImplicit = 52 := rfl
  unfold settled
  rw [dif_neg (by omega), hbits]
  split
  · rename_i heq
    have hvalue : (r : ℚ) * 2 ^ p = ((2 ^ 52 : ℕ) : ℚ) * 2 ^ (p + 1) := by
      rw [heq, zpow_add_one₀ two_ne_zero]
      push_cast
      ring
    have hp' := hcarry heq
    rw [hvalue]
    exact .mk _ Nat.log2_two_pow (by omega) (by omega)
  · rename_i hne
    exact .mk _ ((Nat.log2_eq_iff (by omega)).2 ⟨hlow, by omega⟩) hp (by omega)

/-- Where a number of the range is placed. -/
theorem place_of_inRange {m : ℕ} {e : ℤ} {v : ℚ} (hm : 0 < m) (hv : (m : ℚ) ≤ v)
    (hv' : v < m + 1) (hrange : InRange (v * 2 ^ e)) :
    place .binary64 m e = totalExponent m e - 53 ∧
      -1021 ≤ totalExponent m e ∧ totalExponent m e ≤ 1024 := by
  have hlow := hrange.1.trans_lt (lt_two_zpow m e hv')
  have hhigh := (two_zpow_le hm e hv).trans_lt (lt_two_zpow_of_inRange hrange)
  have hlow := (zpow_lt_zpow_iff_right₀ one_lt_two).1 hlow
  have hhigh := (zpow_lt_zpow_iff_right₀ one_lt_two).1 hhigh
  have hmin : Format.binary64.minExponent = -1074 := by decide
  have hbits : Format.binary64.mantissaBits = 53 := rfl
  refine ⟨?_, by omega, by omega⟩
  unfold place Format.targetExponent
  omega

/-- At the last place no number of the range is rounded up to a mantissa of one bit more. -/
theorem le_of_carry {v : ℚ} {p : ℤ} {r : ℕ} (hrange : InRange v) (hp : p ≤ 971)
    (hr : IsRounded (v * 2 ^ (-p)) r) (hcarry : r = 2 ^ 53) : p ≤ 970 := by
  by_contra hlast
  obtain rfl : p = 971 := by omega
  have hupper : v * 2 ^ (-971 : ℤ) ≤ greatest * 2 ^ (-971 : ℤ) :=
    mul_le_mul_of_nonneg_right hrange.2 (by positivity)
  have hgreatest : greatest * 2 ^ (-971 : ℤ) = 2 ^ 53 - 1 := by
    rw [greatest, sub_mul, ← zpow_add₀ two_ne_zero, ← zpow_add₀ two_ne_zero]
    norm_num
  have hlower := hr.lower
  rw [hgreatest] at hupper
  rw [hcarry] at hlower
  generalize v * 2 ^ (-971 : ℤ) = scaled at hupper hlower
  push_cast at hlower
  linarith

theorem exists_normal_of_settled {m : ℕ} {e : ℤ} {v : ℚ} {r : ℕ} (hm : 0 < m) (hv : (m : ℚ) ≤ v)
    (hv' : v < m + 1) (hrange : InRange (v * 2 ^ e))
    (hr : IsRounded (v * 2 ^ (e - place .binary64 m e)) r) (hle : r ≤ 2 ^ 53) :
    ∃ c, Normal s (settled .binary64 s r (place .binary64 m e)) c ∧ Near (v * 2 ^ e) c := by
  obtain ⟨hplace, hlow, hhigh⟩ := place_of_inRange hm hv hv' hrange
  have hleading : 2 ^ (place .binary64 m e + 52) ≤ v * 2 ^ e := by
    have hexp : place .binary64 m e + 52 = totalExponent m e - 1 := by omega
    rw [hexp]
    exact two_zpow_le hm e hv
  rw [← mul_two_zpow_sub] at hr
  have hlead := two_pow_le_rounded hleading hr
  have hcarry := le_of_carry hrange (by omega) hr
  exact ⟨_, normal_settled hlead hle (by omega) (by omega) hcarry, near_rounded hleading hr⟩

theorem roundWithAccuracy_normal {m : ℕ} {e : ℤ} {accuracy : Accuracy} {v : ℚ}
    (hbits : 2 ^ 52 ≤ m)
    (hv : Represents (ExtendedMantissa.ofMantissaAndAccuracy m accuracy) v)
    (hrange : InRange (v * 2 ^ e)) :
    ∃ c, Normal s (roundWithAccuracy .binary64 s m e accuracy) c ∧ Near (v * 2 ^ e) c := by
  obtain ⟨hlow, hhigh⟩ := hv.bounds
  rw [Rounding.mantissa_ofMantissaAndAccuracy] at hlow hhigh
  have hm : 0 < m := lt_of_lt_of_le (by decide) hbits
  obtain ⟨hplace, -, -⟩ := place_of_inRange hm hlow hhigh hrange
  have hlog : 52 ≤ m.log2 := (Nat.le_log2 hm.ne').2 hbits
  have hle : e ≤ place .binary64 m e := by
    rw [hplace]
    unfold totalExponent
    omega
  obtain ⟨r, hr, hle', hround⟩ := exists_roundWithAccuracy .binary64 s hle hv
  rw [hround]
  exact exists_normal_of_settled hm hlow hhigh hrange hr hle'

theorem round_normal {m : ℕ} {e : ℤ} (hm : 0 < m) (hrange : InRange (m * 2 ^ e)) :
    ∃ c, Normal s (round .binary64 s m e) c ∧ Near (m * 2 ^ e) c := by
  obtain ⟨r, hr, hle, hround⟩ := exists_round .binary64 s hm e
  rw [hround]
  exact exists_normal_of_settled hm le_rfl (by linarith) hrange hr hle

/-! ### Products and quotients -/

section Operations

variable (hu : Normal s u a) (hw : Normal t w b)

include hu hw

theorem mul_normal (hrange : InRange (a * b)) :
    ∃ c, Normal (s * t) (stored (UnpackedFloat.mul .binary64 u w)) c ∧ Near (a * b) c := by
  obtain @⟨m, e, hm, hbits, -, -⟩ := hu
  obtain @⟨n, f, hn, -, -, -⟩ := hw
  have hlead := ((Nat.log2_eq_iff hm.ne').1 hbits).1
  have hexact : Represents (ExtendedMantissa.ofMantissaAndAccuracy (m * n) .exact)
      ((m * n : ℕ) : ℚ) := rfl
  have hvalue : (m : ℚ) * 2 ^ e * (n * 2 ^ f) = ((m * n : ℕ) : ℚ) * 2 ^ (e + f) := by
    rw [zpow_add₀ two_ne_zero]
    push_cast
    ring
  rw [hvalue] at hrange ⊢
  obtain ⟨c, hc, hnear⟩ :=
    roundWithAccuracy_normal (hlead.trans (Nat.le_mul_of_pos_right m hn)) hexact hrange
  have hmul : UnpackedFloat.mul .binary64 (.finite s m e hm) (.finite t n f hn)
      = roundWithAccuracy .binary64 (s * t) (m * n) (e + f) .exact := rfl
  rw [hmul, stored_normal hc]
  exact ⟨c, hc, hnear⟩

end Operations

/-- The whole part of a fraction, with how the rest compares to a half. -/
theorem represents_fraction (m : ℕ) {n : ℕ} (hn : 0 < n) :
    Represents (ExtendedMantissa.ofMantissaAndAccuracy (m / n) (accuracyOfFraction (m % n) n))
      (m / n) := by
  have hpos : (0 : ℚ) < n := Nat.cast_pos.2 hn
  have hdiv : (m : ℚ) = n * ((m / n : ℕ) : ℚ) + ((m % n : ℕ) : ℚ) := by
    exact_mod_cast (Nat.div_add_mod m n).symm
  have hmod : ((m % n : ℕ) : ℚ) < n := Nat.cast_lt.2 (Nat.mod_lt m hn)
  generalize m / n = q at hdiv ⊢
  generalize m % n = r at hdiv hmod ⊢
  have hquotient : (m : ℚ) / n = q + r / n := by
    rw [hdiv]
    field_simp
  rw [hquotient]
  unfold accuracyOfFraction
  split
  · rename_i hzero
    simp [hzero, ExtendedMantissa.ofMantissaAndAccuracy, Represents]
  · rename_i hne
    have hr : (0 : ℚ) < r := Nat.cast_pos.2 (Nat.pos_of_ne_zero hne)
    have hfraction : (0 : ℚ) < r / n := div_pos hr hpos
    have hone : (r : ℚ) / n < 1 := (div_lt_one hpos).2 hmod
    cases hcompare : compare (2 * r) n with
    | lt =>
      have hlt : ((2 * r : ℕ) : ℚ) < n := Nat.cast_lt.2 (Nat.compare_eq_lt.1 hcompare)
      push_cast at hlt
      have hhalf : (r : ℚ) / n < 1 / 2 := by
        rw [div_lt_iff₀ hpos]
        linarith
      exact ⟨by linarith, by linarith⟩
    | eq =>
      have heq : ((2 * r : ℕ) : ℚ) = n := congrArg Nat.cast (Nat.compare_eq_eq.1 hcompare)
      push_cast at heq
      have hhalf : (r : ℚ) / n = 1 / 2 := by
        rw [div_eq_iff hpos.ne']
        linarith
      show (q : ℚ) + r / n = q + 1 / 2
      rw [hhalf]
    | gt =>
      have hlt : (n : ℚ) < ((2 * r : ℕ) : ℚ) := Nat.cast_lt.2 (Nat.compare_eq_gt.1 hcompare)
      push_cast at hlt
      have hhalf : 1 / 2 < (r : ℚ) / n := by
        rw [lt_div_iff₀ hpos]
        linarith
      exact ⟨by linarith, by linarith⟩

theorem divCore_of_normal {m n : ℕ} {e f : ℤ} (hm : m.log2 = 52) (hn : n.log2 = 52)
    (hlow : -1021 ≤ e - f) :
    divCore .binary64 m e n f
      = ((m <<< 53) / n, e - f - 53, accuracyOfFraction ((m <<< 53) % n) n) := by
  have hmin : Format.binary64.minExponent = -1074 := by decide
  have hbits : Format.binary64.mantissaBits = 53 := rfl
  have htarget : min (e - f) (Format.binary64.targetExponent
      (totalExponent m e - totalExponent n f)) = e - f - 53 := by
    unfold Format.targetExponent totalExponent
    omega
  have hshift : (e - f - (e - f - 53)).toNat = 53 := by omega
  simp only [divCore, htarget, hshift]

theorem quotient_eq (m n : ℕ) (e f : ℤ) :
    (m : ℚ) * 2 ^ e / (n * 2 ^ f) = m / n * 2 ^ (e - f) := by
  rw [zpow_sub₀ two_ne_zero, mul_div_mul_comm]

/-- A quotient of the middle of the range has no exponent too low to shift by 53 places. -/
theorem le_sub_of_middle {m n : ℕ} {e f : ℤ} (hm : m < 2 ^ 53) (hn : 2 ^ 52 ≤ n)
    (hmiddle : Middle ((m : ℚ) / n * 2 ^ (e - f))) : -1021 ≤ e - f := by
  have hm' : (m : ℚ) < ((2 ^ 53 : ℕ) : ℚ) := Nat.cast_lt.2 hm
  have hn' : ((2 ^ 52 : ℕ) : ℚ) ≤ n := Nat.cast_le.2 hn
  push_cast at hm' hn'
  have hpos : (0 : ℚ) < n := lt_of_lt_of_le (by norm_num) hn'
  have hhalves : (m : ℚ) / n < 2 ^ (1 : ℤ) := by
    rw [div_lt_iff₀ hpos]
    linarith
  have hupper : (m : ℚ) / n * 2 ^ (e - f) < 2 ^ (1 + (e - f)) := by
    rw [zpow_add₀ two_ne_zero]
    exact mul_lt_mul_of_pos_right hhalves (by positivity)
  have hexp := (zpow_lt_zpow_iff_right₀ one_lt_two).1 (hmiddle.1.trans_lt hupper)
  omega

theorem div_normal (hu : Normal s u a) (hw : Normal t w b) (hmiddle : Middle (a / b)) :
    ∃ c, Normal (s / t) (stored (UnpackedFloat.div .binary64 u w)) c ∧ Near (a / b) c := by
  obtain @⟨m, e, hm, hbits, -, -⟩ := hu
  obtain @⟨n, f, hn, hbits', -, -⟩ := hw
  obtain ⟨hlow, hlt⟩ := (Nat.log2_eq_iff hm.ne').1 hbits
  obtain ⟨hlow', hlt'⟩ := (Nat.log2_eq_iff hn.ne').1 hbits'
  rw [quotient_eq] at hmiddle ⊢
  have hcore := divCore_of_normal hbits hbits' (le_sub_of_middle hlt hlow' hmiddle)
  have hvalue : (m : ℚ) / n * (2 : ℚ) ^ (e - f) = ((m <<< 53 : ℕ) : ℚ) / n * 2 ^ (e - f - 53) := by
    rw [Nat.shiftLeft_eq, zpow_sub₀ two_ne_zero (e - f) 53]
    push_cast
    field_simp
  have hlead : 2 ^ 52 ≤ (m <<< 53) / n := by
    rw [Nat.le_div_iff_mul_le hn, Nat.shiftLeft_eq]
    exact Nat.mul_le_mul hlow hlt'.le
  rw [hvalue] at hmiddle ⊢
  generalize m <<< 53 = dividend at hcore hmiddle hlead ⊢
  have hrest := represents_fraction dividend hn
  obtain ⟨c, hc, hnear⟩ := roundWithAccuracy_normal (s := s / t) hlead hrest hmiddle.inRange
  have hdiv : UnpackedFloat.div .binary64 (.finite s m e hm) (.finite t n f hn)
      = roundWithAccuracy .binary64 (s / t) (dividend / n) (e - f - 53)
        (accuracyOfFraction (dividend % n) n) := by
    simp only [UnpackedFloat.div, hcore]
  rw [hdiv, stored_normal hc]
  exact ⟨c, hc, hnear⟩

/-! ### Floats -/

theorem view_div (x y : Float) :
    view (x / y) = stored (UnpackedFloat.div .binary64 (view x) (view y)) := rfl

theorem view_neg (x : Float) : view (-x) = stored (view x).neg := rfl

theorem one_normal : Normal .positive (view (Float.exactlyRepresentablePowersOfTen[0])) 1 := by
  have hview : view (Float.exactlyRepresentablePowersOfTen[0])
      = .finite .positive (2 ^ 52) (-52) (by decide) := by rfl
  have hvalue : (1 : ℚ) = ((2 ^ 52 : ℕ) : ℚ) * 2 ^ (-52 : ℤ) := by norm_num
  rw [hview, hvalue]
  exact .mk _ Nat.log2_two_pow (by decide) (by decide)

theorem middle_natCast {n : ℕ} (hn : 0 < n) (hlt : n < 2 ^ 53) : Middle n := by
  have hone : ((1 : ℕ) : ℚ) ≤ n := Nat.cast_le.2 hn
  have hmax : (n : ℚ) < ((2 ^ 53 : ℕ) : ℚ) := Nat.cast_lt.2 hlt
  have hlow : (2 : ℚ) ^ (-250 : ℤ) ≤ 2 ^ (0 : ℤ) := zpow_le_zpow_right₀ one_le_two (by decide)
  have hhigh : (2 : ℚ) ^ ((53 : ℕ) : ℤ) ≤ 2 ^ (250 : ℤ) :=
    zpow_le_zpow_right₀ one_le_two (by decide)
  rw [zpow_zero] at hlow
  rw [zpow_natCast] at hhigh
  push_cast at hone hmax
  exact ⟨hlow.trans hone, hmax.trans_le hhigh⟩

theorem short_natCast {n : ℕ} (hlt : n < 2 ^ 53) : Short n := ⟨n, hlt.le, 0, by simp⟩

/-- A whole number that fits a mantissa is a float. -/
theorem ofNat_normal {n : ℕ} (hn : 0 < n) (hlt : n < 2 ^ 53) :
    Normal .positive (view (Float.ofNat n)) n := by
  have hfast : n < 2 ^ 53 ∧ 0 ≤ 22 := ⟨hlt, by decide⟩
  have hofNat : Float.ofNat n
      = n.toUInt64.toFloat * (Float.exactlyRepresentablePowersOfTen[0]) := by
    show Float.ofScientific n false 0 = _
    unfold Float.ofScientific
    rw [dif_pos hfast]
    rfl
  have hword : n.toUInt64.toNat = n := by
    show (UInt64.ofNat n).toNat = n
    rw [UInt64.toNat_ofNat']
    omega
  have hview : view n.toUInt64.toFloat
      = stored (UnpackedFloat.normalize .binary64 n.toUInt64.toNat 0 .positive) := rfl
  have hmiddle : Middle ((n : ℚ) * 2 ^ (0 : ℤ)) := by
    simpa using middle_natCast hn hlt
  obtain ⟨c, hc, hnear⟩ := round_normal (s := .positive) hn hmiddle.inRange
  rw [hword, normalize_pos _ hn, stored_normal hc] at hview
  rw [zpow_zero, mul_one] at hnear
  rw [← hview, hnear.exact (short_natCast hlt)] at hc
  have hmiddle : Middle ((n : ℚ) * 1) := by
    simpa using middle_natCast hn hlt
  obtain ⟨d, hd, hnear⟩ := mul_normal hc one_normal hmiddle.inRange
  rw [mul_one] at hnear
  rw [hofNat, view_mul, ← hnear.exact (short_natCast hlt)]
  exact hd

end LineArt.Binary64
