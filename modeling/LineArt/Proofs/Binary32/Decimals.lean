import LineArt.Proofs.Binary32.Nearest

/-!
# Binary32: decimals

A decimal becomes a 32-bit float in one rounding.  A short word and a small power of ten are
floats themselves, so only their product or quotient is rounded; elsewhere the exact fraction
is cut off below the place it takes.  Either way a decimal in the interval of a float gives
that float.
-/

namespace LineArt.Binary32

open Decimal (Binary)
open Float.Model (Format UnpackedFloat totalExponent)
open Float.Model.UnpackedFloat (ExtendedMantissa Sign unpackExponent_packComponents
  unpackMantissa_packComponents)
open Rounding (Represents normalize_pos)

/-! ### Products and quotients -/

/-- The exponent at which a quotient is cut off. -/
def quotientExponent (n : ℕ) (f : ℤ) (n' : ℕ) (f' : ℤ) : ℤ :=
  min (f - f') (Format.binary32.targetExponent (totalExponent n f - totalExponent n' f'))

/-- A quotient is cut off with enough bits for its mantissa, or at the last place there is. -/
theorem quotient_bits {n n' : ℕ} (hn : 0 < n) (hn' : 0 < n') (f f' : ℤ) :
    2 ^ 23 ≤ (n <<< (f - f' - quotientExponent n f n' f').toNat) / n' ∨
      quotientExponent n f n' f' ≤ -149 := by
  have hmin : Format.binary32.minExponent = -149 := by decide
  have hbits : Format.binary32.mantissaBits = 24 := rfl
  by_cases hlast : quotientExponent n f n' f' ≤ -149
  · exact .inr hlast
  · left
    generalize hk : (f - f' - quotientExponent n f n' f').toNat = k
    have hplaces : n'.log2 + 24 ≤ n.log2 + k := by
      unfold quotientExponent Format.targetExponent totalExponent at hlast hk
      omega
    rw [Nat.le_div_iff_mul_le hn', Nat.shiftLeft_eq]
    calc 2 ^ 23 * n' ≤ 2 ^ 23 * 2 ^ (n'.log2 + 1) := Nat.mul_le_mul_left _ Nat.lt_log2_self.le
      _ = 2 ^ (n'.log2 + 24) := by rw [← Nat.pow_add]; congr 1; omega
      _ ≤ 2 ^ (n.log2 + k) := Nat.pow_le_pow_right (by decide) hplaces
      _ = 2 ^ n.log2 * 2 ^ k := Nat.pow_add 2 _ _
      _ ≤ n * 2 ^ k := Nat.mul_le_mul_right _ (Nat.log2_self_le hn.ne')

theorem quotient_value (n n' : ℕ) {f f' t : ℤ} (ht : t ≤ f - f') :
    ((n <<< (f - f' - t).toNat : ℕ) : ℚ) / n' * 2 ^ t = n * 2 ^ f / (n' * 2 ^ f') := by
  have hexp : f - f' = ((f - f' - t).toNat : ℤ) + t := by omega
  rw [Binary64.quotient_eq, Rounding.two_zpow_eq (e := t) _ hexp, Nat.shiftLeft_eq]
  push_cast
  ring

section Rounded

variable {m : ℕ} {e : ℤ} (hm : 0 < m) (hmantissa : m < 2 ^ 24) (hlow : -149 ≤ e)
  (hlead : 2 ^ 23 ≤ m ∨ e = -149)

include hmantissa hlow hlead

section Operands

variable (s t : Sign) {n n' : ℕ} {f f' : ℤ} (hn : 0 < n) (hn' : 0 < n')

theorem mul_of_contains (hbits : 2 ^ 23 ≤ n * n')
    (h : (binary32 m e).Contains (n * 2 ^ f * (n' * 2 ^ f'))) :
    UnpackedFloat.mul .binary32 (.finite s n f hn) (.finite t n' f' hn')
      = .finite (s * t) m e hm := by
  have hexact : Represents (ExtendedMantissa.ofMantissaAndAccuracy (n * n') .exact)
      ((n * n' : ℕ) : ℚ) := rfl
  have hvalue : (n : ℚ) * 2 ^ f * (n' * 2 ^ f') = ((n * n' : ℕ) : ℚ) * 2 ^ (f + f') := by
    rw [zpow_add₀ two_ne_zero]
    push_cast
    ring
  rw [hvalue] at h
  exact roundWithAccuracy_of_contains hm hmantissa hlow hlead (s * t) (.inl hbits) hexact h

theorem div_of_contains (h : (binary32 m e).Contains (n * 2 ^ f / (n' * 2 ^ f'))) :
    UnpackedFloat.div .binary32 (.finite s n f hn) (.finite t n' f' hn')
      = .finite (s / t) m e hm := by
  have hbits := quotient_bits hn hn' f f'
  have hvalue := quotient_value n n' (min_le_left (f - f') _ : quotientExponent n f n' f' ≤ _)
  have hrest := Binary64.represents_fraction
    (n <<< (f - f' - quotientExponent n f n' f').toNat) hn'
  rw [← hvalue] at h
  exact roundWithAccuracy_of_contains hm hmantissa hlow hlead (s / t) hbits hrest h

end Operands

end Rounded

/-! ### Normal numbers -/

/-- A positive number with its leading bit in place, as it is stored, and its magnitude. -/
inductive Normal : UnpackedFloat → ℚ → Prop where
  | mk {m : ℕ} {e : ℤ} (hm : 0 < m) (hbits : m.log2 = 23) (hlow : -149 ≤ e) (hhigh : e ≤ 104) :
    Normal (.finite .positive m e hm) (m * 2 ^ e)

theorem stored_normal {u : UnpackedFloat} {a : ℚ} (h : Normal u a) : stored u = u := by
  obtain @⟨m, e, hm, hbits, hlow, hhigh⟩ := h
  have hbias : (Format.binary32.exponentBias : ℤ) = 127 := by decide
  obtain ⟨hle, hlt⟩ := (Nat.log2_eq_iff hm.ne').1 hbits
  generalize hk : (e + Format.binary32.exponentBias + (23 : ℕ)).toNat = k
  have hk' : (k : ℤ) = e + 150 := by omega
  have hword : (BitVec.ofNat 8 k).toNat = k := by
    rw [BitVec.toNat_ofNat]
    omega
  have hones : BitVec.ofNat 8 k ≠ -1#8 := by
    intro h
    have hmax := congrArg BitVec.toNat h
    rw [hword] at hmax
    simp at hmax
    omega
  have hzero : BitVec.ofNat 8 k ≠ 0#8 := by
    intro h
    have hmin := congrArg BitVec.toNat h
    rw [hword] at hmin
    simp at hmin
    omega
  have hlead : (1#1 ++ BitVec.ofNat 23 m).toNat = m := by
    rw [toNat_implicit, BitVec.toNat_ofNat]
    omega
  have hfits : m.log2 + 1 = Format.binary32.mantissaBits := by
    rw [hbits]
    rfl
  simp only [stored, UnpackedFloat.pack, hk]
  rw [if_neg (by omega), if_pos hfits]
  simp only [UnpackedFloat.unpack, unpackExponent_packComponents, unpackMantissa_packComponents,
    unpackSign_packComponents, ofBitVec_toBitVec]
  rw [if_neg hones, if_neg hzero]
  simp only [hlead, hword, hbias]
  congr 1
  push_cast
  omega

section Operands

variable {u w : UnpackedFloat} {a b : ℚ} {m : ℕ} {e : ℤ} (hm : 0 < m) (hmantissa : m < 2 ^ 24)
  (hlow : -149 ≤ e) (hlead : 2 ^ 23 ≤ m ∨ e = -149) (hu : Normal u a) (hw : Normal w b)

include hmantissa hlow hlead hu hw

theorem mul_normal (h : (binary32 m e).Contains (a * b)) :
    UnpackedFloat.mul .binary32 u w = .finite .positive m e hm := by
  obtain @⟨n, f, hn, hbits, -, -⟩ := hu
  obtain @⟨n', f', hn', -, -, -⟩ := hw
  have hlead' := ((Nat.log2_eq_iff hn.ne').1 hbits).1
  exact mul_of_contains hm hmantissa hlow hlead .positive .positive hn hn'
    (hlead'.trans (Nat.le_mul_of_pos_right n hn')) h

theorem div_normal (h : (binary32 m e).Contains (a / b)) :
    UnpackedFloat.div .binary32 u w = .finite .positive m e hm := by
  obtain @⟨n, f, hn, -, -, -⟩ := hu
  obtain @⟨n', f', hn', -, -, -⟩ := hw
  exact div_of_contains hm hmantissa hlow hlead .positive .positive hn hn' h

end Operands

/-- A word of at most 24 bits is a float. -/
theorem toFloat32_normal {p : ℕ} (hp : 0 < p) (hlt : p < 2 ^ 24) :
    Normal (view p.toUInt64.toFloat32) p := by
  have hlog : p.log2 ≤ 23 := Binary64.log2_le_of_lt_two_pow hlt
  generalize hk : 23 - p.log2 = k
  have hpos : 0 < p <<< k := by
    rw [Nat.shiftLeft_eq]
    exact Nat.mul_pos hp (Nat.two_pow_pos k)
  have hbits : (p <<< k).log2 = 23 := by
    rw [Rounding.log2_shiftLeft hp]
    omega
  obtain ⟨hle, hlt'⟩ := (Nat.log2_eq_iff hpos.ne').1 hbits
  have hvalue : ((p <<< k : ℕ) : ℚ) * 2 ^ (-k : ℤ) = p := by
    rw [Nat.shiftLeft_eq, zpow_neg, zpow_natCast]
    push_cast
    field_simp
  have hword : p.toUInt64.toNat = p := by
    show (UInt64.ofNat p).toNat = p
    rw [UInt64.toNat_ofNat']
    omega
  have hcontains : (binary32 (p <<< k) (-k)).Contains (p * 2 ^ (0 : ℤ)) := by
    rw [zpow_zero, mul_one, ← hvalue]
    exact Binary.contains_value hpos
  have hround := round_of_contains hpos hlt' (by omega) (.inl hle) .positive hp hcontains
  have hview : view p.toUInt64.toFloat32
      = stored (UnpackedFloat.normalize .binary32 p.toUInt64.toNat 0 .positive) := rfl
  have hnormal : Normal (.finite .positive (p <<< k) (-k) hpos) p := by
    rw [← hvalue]
    exact .mk hpos hbits (by omega) (by omega)
  rw [hview, hword, normalize_pos _ hp, hround, stored_normal hnormal]
  exact hnormal

/-! ### Words times powers of ten -/

/-- Whether a power of ten is a float. -/
def powerIsExact (k : Fin 11) : Bool :=
  match view (Float32.exactlyRepresentablePowersOfTen[k]) with
  | .finite .positive m e _ =>
    decide (m.log2 = 23 ∧ -149 ≤ e ∧ e ≤ 104 ∧ (m * 2 ^ e : ℚ) = 10 ^ k.val)
  | _ => false

theorem powerIsExact_of_lt : ∀ k : Fin 11, powerIsExact k = true := by
  decide +kernel

theorem power_normal (k : Fin 11) :
    Normal (view (Float32.exactlyRepresentablePowersOfTen[k])) (10 ^ k.val) := by
  have hexact := powerIsExact_of_lt k
  unfold powerIsExact at hexact
  split at hexact
  · rename_i m e hm hview
    obtain ⟨hbits, hlow, hhigh, hvalue⟩ := of_decide_eq_true hexact
    rw [hview, ← hvalue]
    exact .mk hm hbits hlow hhigh
  · contradiction

theorem view_div (x y : Float32) :
    view (x / y) = stored (UnpackedFloat.div .binary32 (view x) (view y)) := rfl

section Decimals

variable {m : ℕ} {e : ℤ} (hm : 0 < m) (hmantissa : m < 2 ^ 24) (hlow : -149 ≤ e)
  (hlead : 2 ^ 23 ≤ m ∨ e = -149) {p : ℕ} {k : ℤ} (hp : 0 < p) (hk : -256 ≤ k) (hk' : k ≤ 256)
  (h : (binary32 m e).Contains (p * 10 ^ k))

include hmantissa hlow hlead hp hk hk' h

/-- A decimal in the interval of a float, rounded from its exact value. -/
theorem ofScientific_of_contains :
    UnpackedFloat.ofScientific .binary32 p k = .finite .positive m e hm := by
  have hbits : (2 : ℤ) ^ Format.binary32.exponentBits = 256 := by decide
  unfold UnpackedFloat.ofScientific
  rw [dif_neg hp.ne', hbits, if_neg (by omega), if_neg (by omega)]
  split
  · rename_i hnonneg
    obtain ⟨j, rfl⟩ := Int.eq_ofNat_of_zero_le hnonneg
    refine mul_of_contains hm hmantissa hlow hlead .positive .positive _ _ ?_ ?_
    · rw [Nat.shiftLeft_eq]
      calc 2 ^ 23 ≤ 1 * 2 ^ 24 * 1 := by decide
        _ ≤ p * 2 ^ 24 * 10 ^ j :=
          Nat.mul_le_mul (Nat.mul_le_mul_right _ hp) (Nat.pow_pos (by decide))
    · convert h using 1
      show ((p <<< 24 : ℕ) : ℚ) * 2 ^ (-24 : ℤ) * (((10 ^ j : ℕ) : ℚ) * 2 ^ (0 : ℤ)) = _
      rw [Nat.shiftLeft_eq, zpow_natCast, zpow_zero, mul_one, zpow_neg]
      push_cast
      field_simp
  · rename_i hneg
    obtain ⟨j, hj⟩ := Int.eq_ofNat_of_zero_le (a := -k) (by omega)
    obtain rfl : k = -(j : ℤ) := by omega
    refine div_of_contains hm hmantissa hlow hlead .positive .positive _ _ ?_
    convert h using 1
    rw [Int.neg_neg, Int.toNat_natCast, zpow_zero, mul_one, mul_one, zpow_neg, zpow_natCast,
      div_eq_mul_inv]
    push_cast
    rfl

/-- A decimal in the interval of a positive float is read as that float. -/
theorem view_nearest32 : view (nearest32 p k) = stored (.finite .positive m e hm) := by
  unfold nearest32 Float32.ofScientific
  split
  · -- The word and the power are both floats.
    rename_i hshort
    obtain ⟨hword, hpower⟩ := hshort
    have hp := toFloat32_normal hp (by omega)
    have hpow := power_normal ⟨k.natAbs, by omega⟩
    dsimp only
    split
    · rename_i hneg
      have hneg := of_decide_eq_true hneg
      obtain ⟨j, hj⟩ := Int.eq_ofNat_of_zero_le (a := -k) (by omega)
      obtain rfl : k = -(j : ℤ) := by omega
      rw [view_div]
      refine congrArg stored (div_normal hm hmantissa hlow hlead hp hpow ?_)
      convert h using 1
      rw [zpow_neg, zpow_natCast, div_eq_mul_inv]
      simp
    · rename_i hnonneg
      have hnonneg := not_lt.1 (mt decide_eq_true hnonneg)
      obtain ⟨j, rfl⟩ := Int.eq_ofNat_of_zero_le hnonneg
      rw [view_mul]
      refine congrArg stored (mul_normal hm hmantissa hlow hlead hp hpow ?_)
      rw [zpow_natCast] at h
      exact h
  · have hexp :
        (if decide (k < 0) = true then Int.negOfNat k.natAbs else Int.ofNat k.natAbs) = k := by
      cases k with
      | ofNat j => rfl
      | negSucc j =>
        rw [decide_eq_true (Int.negSucc_lt_zero j), if_pos rfl]
        rfl
    dsimp only
    rw [hexp]
    exact congrArg stored (ofScientific_of_contains hm hmantissa hlow hlead hp hk hk' h)

end Decimals

/-- A decimal in the interval of a float is read as that float, the sign apart. -/
theorem signed32_nearest32 {x : Float32} {s : Sign} {m : ℕ} {e : ℤ} {hm : 0 < m}
    (hx : view x = .finite s m e hm) {p : ℕ} {k : ℤ} (hp : 0 < p) (hk : -256 ≤ k) (hk' : k ≤ 256)
    (h : (binary32 m e).Contains (p * 10 ^ k)) :
    signed32 (isNegative s) (nearest32 p k) = x := by
  obtain ⟨hmantissa, -⟩ := finite_bounds hx
  obtain ⟨hlow, hlead⟩ := finite_canonical hx
  have hview := view_nearest32 hm hmantissa hlow hlead hp hk hk' h
  have hsigned : view (signed32 (isNegative s) (nearest32 p k)) = view x := by
    rw [← stored_view x, hx]
    cases s with
    | positive => exact hview
    | negative =>
      show view (-nearest32 p k) = _
      rw [view_neg, hview, ← stored_neg]
      rfl
  rw [← ofModel_pack_view x, ← hsigned, ofModel_pack_view]

end LineArt.Binary32
