import LineArt.Proofs.Binary64.Magnitude

/-!
# Rounding to a format

What the rounding of the float model is worth.  A mantissa carries two residual bits, which
say enough of the number it was cut from to round it; shifting keeps what they say.  So the
rounded mantissa is the whole number nearest to the exact one, the even one of two equally
near, whatever the format.
-/

namespace LineArt.Rounding

open Float.Model (Format UnpackedFloat totalExponent)
open Float.Model.UnpackedFloat (Accuracy ExtendedMantissa Sign decreaseExponent round
  roundWithAccuracy shiftToTargetExponent)
open Binary64 (div_two_pow_lt log2_le_of_lt_two_pow log2_shiftLeft_le mantissa_shiftRight
  roundedMantissa_le)

/-! ### Residual bits -/

/-- What a mantissa with its residual bits says of the number it was cut from. -/
def Represents (em : ExtendedMantissa) (v : ℚ) : Prop :=
  match em with
  | ⟨m, false, false⟩ => v = m
  | ⟨m, false, true⟩ => m < v ∧ v < m + 1 / 2
  | ⟨m, true, false⟩ => v = m + 1 / 2
  | ⟨m, true, true⟩ => m + 1 / 2 < v ∧ v < m + 1

theorem Represents.bounds {em : ExtendedMantissa} {v : ℚ} (h : Represents em v) :
    (em.mantissa : ℚ) ≤ v ∧ v < em.mantissa + 1 := by
  obtain ⟨m, r, s⟩ := em
  cases r <;> cases s <;> simp only [Represents] at h ⊢ <;> constructor <;> linarith

theorem Represents.shiftRightOne {em : ExtendedMantissa} {v : ℚ} (h : Represents em v) :
    Represents em.shiftRightOne (v / 2) := by
  obtain ⟨m, r, s⟩ := em
  show Represents ⟨m / 2, m % 2 != 0, r || s⟩ (v / 2)
  -- The lowest bit of the mantissa becomes the round bit.
  obtain ⟨k, rfl | rfl⟩ := m.even_or_odd'
  · have hhalf : 2 * k / 2 = k := by omega
    have hbit : (2 * k % 2 != 0) = false := by simp
    rw [hhalf, hbit]
    cases r <;> cases s <;> simp only [Represents, Bool.or_self, Bool.or_true, Bool.or_false] at h ⊢
      <;> push_cast at h <;> (try constructor) <;> linarith
  · have hhalf : (2 * k + 1) / 2 = k := by omega
    have hbit : ((2 * k + 1) % 2 != 0) = true := by simp
    rw [hhalf, hbit]
    cases r <;> cases s <;> simp only [Represents, Bool.or_self, Bool.or_true, Bool.or_false] at h ⊢
      <;> push_cast at h <;> (try constructor) <;> linarith

theorem Represents.shiftRight {em : ExtendedMantissa} {v : ℚ} (h : Represents em v) (k : ℕ) :
    Represents (em >>> k) (v / 2 ^ k) := by
  induction k with
  | zero => simpa [HShiftRight.hShiftRight, Nat.repeat] using h
  | succ k ih =>
    rw [pow_succ, ← div_div]
    exact ih.shiftRightOne

theorem mantissa_ofMantissaAndAccuracy (m : ℕ) (a : Accuracy) :
    (ExtendedMantissa.ofMantissaAndAccuracy m a).mantissa = m := by
  cases a with
  | exact => rfl
  | inexact o => cases o <;> rfl

/-! ### Nearest whole numbers -/

/-- `r` is the whole number nearest to `v`, the even one of two equally near. -/
structure IsRounded (v : ℚ) (r : ℕ) : Prop where
  lower : (r : ℚ) - 1 / 2 ≤ v
  upper : v ≤ r + 1 / 2
  even_of_lower : v = r - 1 / 2 → Even r
  even_of_upper : v = r + 1 / 2 → Even r

theorem isRounded_natCast (n : ℕ) : IsRounded n n where
  lower := by linarith
  upper := by linarith
  even_of_lower h := by linarith
  even_of_upper h := by linarith

theorem Represents.isRounded {em : ExtendedMantissa} {v : ℚ} (h : Represents em v) :
    IsRounded v em.roundedMantissa := by
  obtain ⟨m, r, s⟩ := em
  cases r <;> cases s <;> simp only [Represents] at h
  · rw [h]
    exact isRounded_natCast m
  · show IsRounded v m
    exact ⟨by linarith, by linarith, fun h' => by linarith, fun h' => by linarith⟩
  · show IsRounded v (m + m % 2)
    obtain ⟨k, rfl | rfl⟩ := m.even_or_odd'
    · have hsum : 2 * k + 2 * k % 2 = 2 * k := by omega
      rw [hsum]
      exact ⟨by linarith, by linarith, fun _ => even_two_mul k, fun _ => even_two_mul k⟩
    · have hsum : 2 * k + 1 + (2 * k + 1) % 2 = 2 * (k + 1) := by omega
      rw [hsum]
      push_cast at h
      refine ⟨?_, ?_, fun _ => even_two_mul _, fun _ => even_two_mul _⟩ <;> push_cast <;> linarith
  · show IsRounded v (m + 1)
    refine ⟨?_, ?_, fun h' => ?_, fun h' => ?_⟩ <;> push_cast at * <;> linarith

/-- Of two equally near whole numbers only one is even. -/
theorem IsRounded.ne_succ {v : ℚ} {r r' : ℕ} (h : IsRounded v r) (h' : IsRounded v r') :
    r ≠ r' + 1 := by
  rintro rfl
  have hlower := h.lower
  have hupper := h'.upper
  push_cast at hlower
  have hv : v = r' + 1 / 2 := by linarith
  have heven := h'.even_of_upper hv
  have hsucc := h.even_of_lower (by rw [hv]; push_cast; ring)
  exact Nat.even_add_one.1 hsucc heven

theorem IsRounded.unique {v : ℚ} {r r' : ℕ} (h : IsRounded v r) (h' : IsRounded v r') :
    r = r' := by
  have hbelow : (r : ℚ) ≤ (r' + 1 : ℕ) := by push_cast; linarith [h.lower, h'.upper]
  have habove : (r' : ℚ) ≤ (r + 1 : ℕ) := by push_cast; linarith [h'.lower, h.upper]
  have hbelow := Nat.cast_le.1 hbelow
  have habove := Nat.cast_le.1 habove
  have hne := h.ne_succ h'
  have hne' := h'.ne_succ h
  omega

/-! ### Rounding in a format -/

section Formats

variable (S : Format) (s : Sign)

/-- The number `r * 2 ^ t`, a mantissa of one bit too many moved by a place. -/
def settled (r : ℕ) (t : ℤ) : UnpackedFloat :=
  if hr : r = 0 then .zero s
  else if r = 2 ^ S.mantissaBits then
    .finite s (2 ^ S.mantissaBitsWithoutImplicit) (t + 1) (Nat.two_pow_pos _)
  else .finite s r t (Nat.pos_of_ne_zero hr)

/-- The exponent that a number takes in a format. -/
def place (m : ℕ) (e : ℤ) : ℤ := S.targetExponent (totalExponent m e)

theorem shiftToTargetExponent_eq (m : ℕ) (e : ℤ) (a : Accuracy) :
    shiftToTargetExponent S m e a
      = (ExtendedMantissa.ofMantissaAndAccuracy m a >>> (place S m e - e).toNat,
        e + (place S m e - e).toNat) := rfl

theorem place_of_lt {m : ℕ} {t : ℤ} (hm : m < 2 ^ S.mantissaBits) (ht : S.minExponent ≤ t) :
    place S m t ≤ t := by
  have hlog : m.log2 ≤ S.mantissaBitsWithoutImplicit := by
    apply log2_le_of_lt_two_pow
    rwa [Nat.add_comm]
  unfold place Format.targetExponent totalExponent Format.mantissaBits
  omega

theorem place_two_pow {t : ℤ} (ht : S.minExponent ≤ t) :
    place S (2 ^ S.mantissaBits) t = t + 1 := by
  unfold place Format.targetExponent totalExponent
  rw [Nat.log2_two_pow]
  omega

/-- The second shift of a rounded mantissa: it loses a bit if it has one too many. -/
theorem shifted_again {r : ℕ} {t : ℤ} (hr : r ≤ 2 ^ S.mantissaBits) (ht : S.minExponent ≤ t) :
    (let (em, e) := shiftToTargetExponent S r t .exact
     if h : em.mantissa = 0 then UnpackedFloat.zero s
     else .finite s em.mantissa e (Nat.pos_of_ne_zero h)) = settled S s r t := by
  rw [shiftToTargetExponent_eq]
  dsimp only
  rcases hr.lt_or_eq with hlt | rfl
  · have hplace := place_of_lt S hlt ht
    have hshift : (place S r t - t).toNat = 0 := by omega
    have hmantissa : (ExtendedMantissa.ofMantissaAndAccuracy r .exact >>> 0).mantissa = r := rfl
    simp only [hshift, hmantissa, settled, hlt.ne, if_false, Nat.cast_zero, add_zero]
  · have hbits : S.mantissaBits = S.mantissaBitsWithoutImplicit + 1 := Nat.add_comm _ _
    have hshift : (place S (2 ^ S.mantissaBits) t - t).toNat = 1 := by
      rw [place_two_pow S ht]
      omega
    have hmantissa : (ExtendedMantissa.ofMantissaAndAccuracy (2 ^ S.mantissaBits) .exact
        >>> 1).mantissa = 2 ^ S.mantissaBitsWithoutImplicit := by
      rw [mantissa_shiftRight, mantissa_ofMantissaAndAccuracy, hbits, Nat.pow_succ, Nat.pow_one,
        Nat.mul_div_cancel _ (by decide)]
    have hne : (2 ^ S.mantissaBits : ℕ) ≠ 0 := (Nat.two_pow_pos _).ne'
    have hne' : (2 ^ S.mantissaBitsWithoutImplicit : ℕ) ≠ 0 := (Nat.two_pow_pos _).ne'
    simp only [hshift, hmantissa, settled, hne, hne', dif_neg, not_false_eq_true, if_true,
      Nat.cast_one]

/-- Rounding a number that was cut off below the place it takes. -/
theorem exists_roundWithAccuracy {m : ℕ} {e : ℤ} {a : Accuracy} {v : ℚ}
    (hplace : e ≤ place S m e)
    (hv : Represents (ExtendedMantissa.ofMantissaAndAccuracy m a) v) :
    ∃ r, IsRounded (v * 2 ^ (e - place S m e)) r ∧ r ≤ 2 ^ S.mantissaBits ∧
      roundWithAccuracy S s m e a = settled S s r (place S m e) := by
  generalize hk : (place S m e - e).toNat = k
  have hcut := hv.shiftRight k
  have hscale : v / 2 ^ k = v * 2 ^ (e - place S m e) := by
    rw [div_eq_mul_inv, ← zpow_natCast, ← zpow_neg]
    congr 2
    omega
  rw [hscale] at hcut
  have hle : (ExtendedMantissa.ofMantissaAndAccuracy m a >>> k).roundedMantissa
      ≤ 2 ^ S.mantissaBits := by
    have hsucc := roundedMantissa_le (ExtendedMantissa.ofMantissaAndAccuracy m a >>> k)
    rw [mantissa_shiftRight, mantissa_ofMantissaAndAccuracy] at hsucc
    have hlt := div_two_pow_lt m k
    have hbits : m.log2 + 1 - k ≤ S.mantissaBits := by
      have htarget : (totalExponent m e : ℤ) - S.mantissaBits ≤ place S m e := le_max_left _ _
      unfold totalExponent at htarget
      omega
    have hpow : 2 ^ (m.log2 + 1 - k) ≤ 2 ^ S.mantissaBits := Nat.pow_le_pow_right (by decide) hbits
    omega
  have hmin : S.minExponent ≤ place S m e := le_max_right _ _
  have hfirst : shiftToTargetExponent S m e a
      = (ExtendedMantissa.ofMantissaAndAccuracy m a >>> k, place S m e) := by
    rw [shiftToTargetExponent_eq, hk]
    congr 1
    omega
  refine ⟨_, hcut.isRounded, hle, ?_⟩
  unfold roundWithAccuracy
  rw [hfirst]
  exact shifted_again S s hle hmin

theorem log2_shiftLeft {m : ℕ} (hm : 0 < m) (k : ℕ) : (m <<< k).log2 = m.log2 + k := by
  have hpos : m <<< k ≠ 0 := by
    rw [Nat.shiftLeft_eq]
    exact (Nat.mul_pos hm (Nat.two_pow_pos k)).ne'
  have hle : 2 ^ (m.log2 + k) ≤ m <<< k := by
    rw [Nat.shiftLeft_eq, Nat.pow_add]
    exact Nat.mul_le_mul_right _ (Nat.log2_self_le hm.ne')
  exact (log2_shiftLeft_le m k).antisymm ((Nat.le_log2 hpos).2 hle)

theorem totalExponent_shiftLeft {m : ℕ} (hm : 0 < m) (e : ℤ) (k : ℕ) :
    totalExponent (m <<< k) (e - k) = totalExponent m e := by
  unfold totalExponent
  rw [log2_shiftLeft hm]
  omega

/-- Rounding a number that may have fewer bits than the format gives it. -/
theorem exists_round {m : ℕ} (hm : 0 < m) (e : ℤ) :
    ∃ r, IsRounded (m * 2 ^ (e - place S m e)) r ∧ r ≤ 2 ^ S.mantissaBits ∧
      round S s m e = settled S s r (place S m e) := by
  generalize hk : (e - place S m e).toNat = k
  have hsame : place S (m <<< k) (e - k) = place S m e :=
    congrArg S.targetExponent (totalExponent_shiftLeft hm e k)
  have hplace : e - k ≤ place S (m <<< k) (e - k) := by omega
  have hexact : Represents (ExtendedMantissa.ofMantissaAndAccuracy (m <<< k) .exact)
      ((m <<< k : ℕ) : ℚ) := rfl
  obtain ⟨r, hr, hle, hround⟩ := exists_roundWithAccuracy S s hplace hexact
  rw [hsame] at hr hround
  have hvalue : ((m <<< k : ℕ) : ℚ) * 2 ^ (e - k - place S m e) = m * 2 ^ (e - place S m e) := by
    rw [Nat.shiftLeft_eq]
    push_cast
    rw [mul_assoc, ← zpow_natCast, ← zpow_add₀ two_ne_zero]
    congr 2
    omega
  rw [hvalue] at hr
  have hround' : round S s m e = roundWithAccuracy S s (m <<< k) (e - k) .exact := by
    rw [← hk]
    rfl
  exact ⟨r, hr, hle, hround'.trans hround⟩

omit s in
theorem normalize_pos {n : ℕ} (hn : 0 < n) :
    UnpackedFloat.normalize S n 0 .positive = round S .positive n 0 := by
  have hcompare : compare (n : ℤ) 0 = .gt := Int.compare_eq_gt.2 (by omega)
  unfold UnpackedFloat.normalize
  rw [hcompare]
  rfl

end Formats

/-! ### Leading bits -/

theorem two_zpow_eq {e f : ℤ} (n : ℕ) (h : f = n + e) : (2 : ℚ) ^ f = 2 ^ n * 2 ^ e := by
  rw [h, zpow_add₀ two_ne_zero, zpow_natCast]

theorem mul_two_zpow_sub (v : ℚ) (e p : ℤ) : v * 2 ^ e * 2 ^ (-p) = v * 2 ^ (e - p) := by
  rw [mul_assoc, ← zpow_add₀ two_ne_zero, sub_eq_add_neg]

theorem two_zpow_le {m : ℕ} (hm : 0 < m) (e : ℤ) {v : ℚ} (hv : (m : ℚ) ≤ v) :
    2 ^ (totalExponent m e - 1) ≤ v * 2 ^ e := by
  have hlog : ((2 ^ m.log2 : ℕ) : ℚ) ≤ m := Nat.cast_le.2 (Nat.log2_self_le hm.ne')
  push_cast at hlog
  have hexp : totalExponent m e - 1 = (m.log2 : ℤ) + e := by
    unfold totalExponent
    omega
  rw [two_zpow_eq m.log2 hexp]
  exact mul_le_mul_of_nonneg_right (hlog.trans hv) (by positivity)

theorem lt_two_zpow (m : ℕ) (e : ℤ) {v : ℚ} (hv : v < m + 1) :
    v * 2 ^ e < 2 ^ totalExponent m e := by
  have hlog : ((m + 1 : ℕ) : ℚ) ≤ ((2 ^ (m.log2 + 1) : ℕ) : ℚ) := Nat.cast_le.2 Nat.lt_log2_self
  push_cast at hlog
  have hexp : totalExponent m e = ((m.log2 + 1 : ℕ) : ℤ) + e := by
    unfold totalExponent
    push_cast
    rfl
  rw [two_zpow_eq (m.log2 + 1) hexp]
  exact mul_lt_mul_of_pos_right (hv.trans_le hlog) (by positivity)

end LineArt.Rounding
