import LineArt.Proofs.Binary32.Packing

/-!
# Binary64: magnitude

How large a product can become.  A number is followed by a power of two that it stays
below; rounding costs one place, and a number below `2 ^ 972` is stored without overflow.
-/

namespace LineArt.Binary64

open Float.Model (Format UnpackedFloat totalExponent)
open Float.Model.UnpackedFloat (Accuracy ExtendedMantissa Sign packComponents
  roundWithAccuracy shiftToTargetExponent unpackExponent_packComponents
  unpackMantissa_packComponents)

/-- Zero, or a finite number below `2 ^ b`. -/
def Below (b : Nat) : UnpackedFloat → Prop
  | .zero _ => True
  | .finite _ m e _ => totalExponent m e ≤ b
  | _ => False

instance (b : Nat) (u : UnpackedFloat) : Decidable (Below b u) :=
  match u with
  | .zero _ => .isTrue trivial
  | .finite _ m e _ => inferInstanceAs (Decidable (totalExponent m e ≤ b))
  | .infinity _ => .isFalse id
  | .notANumber => .isFalse id

theorem Below.mono {b c : Nat} {u : UnpackedFloat} (h : Below b u) (hle : b ≤ c) : Below c u := by
  cases u with
  | zero s => trivial
  | finite s m e hm =>
    have hm : totalExponent m e ≤ b := h
    show totalExponent m e ≤ c
    omega
  | infinity s => exact h
  | notANumber => exact h

/-! ### Leading bits -/

theorem log2_mul_le {m n : Nat} (hm : 0 < m) (hn : 0 < n) :
    (m * n).log2 ≤ m.log2 + n.log2 + 1 := by
  have hpos : 0 < m * n := Nat.mul_pos hm hn
  have hlt : m * n < 2 ^ (m.log2 + 1) * 2 ^ (n.log2 + 1) :=
    Nat.mul_lt_mul'' Nat.lt_log2_self Nat.lt_log2_self
  rw [← Nat.pow_add] at hlt
  have hlog := (Nat.log2_lt (by omega)).2 hlt
  omega

theorem div_two_pow_lt (m k : Nat) : m / 2 ^ k < 2 ^ (m.log2 + 1 - k) := by
  rw [Nat.div_lt_iff_lt_mul (Nat.two_pow_pos k), ← Nat.pow_add]
  calc m < 2 ^ (m.log2 + 1) := Nat.lt_log2_self
    _ ≤ 2 ^ (m.log2 + 1 - k + k) := Nat.pow_le_pow_right (by decide) (by omega)

theorem log2_le_of_lt_two_pow {r j : Nat} (h : r < 2 ^ (j + 1)) : r.log2 ≤ j := by
  by_cases hr : r = 0
  · subst hr
    simp
  · have hlog := (Nat.log2_lt hr).2 h
    omega

theorem log2_le_of_le_two_pow {r j : Nat} (h : r ≤ 2 ^ j) : r.log2 ≤ j := by
  have hlt : 2 ^ j < 2 ^ (j + 1) := Nat.pow_lt_pow_right (by decide) (by omega)
  exact log2_le_of_lt_two_pow (by omega)

theorem log2_shiftLeft_le (n k : Nat) : (n <<< k).log2 ≤ n.log2 + k := by
  have hlt : n <<< k < 2 ^ (n.log2 + 1) * 2 ^ k := by
    rw [Nat.shiftLeft_eq]
    exact Nat.mul_lt_mul_of_pos_right Nat.lt_log2_self (Nat.two_pow_pos k)
  rw [← Nat.pow_add, Nat.add_right_comm] at hlt
  exact log2_le_of_lt_two_pow hlt

/-! ### Rounding -/

theorem mantissa_shiftRight (em : ExtendedMantissa) (k : Nat) :
    (em >>> k).mantissa = em.mantissa / 2 ^ k := by
  induction k with
  | zero => simp [HShiftRight.hShiftRight, Nat.repeat]
  | succ k ih =>
    show (em >>> k).mantissa / 2 = _
    rw [ih, Nat.div_div_eq_div_mul, Nat.pow_succ]

theorem roundedMantissa_le (em : ExtendedMantissa) : em.roundedMantissa ≤ em.mantissa + 1 := by
  obtain ⟨m, r, s⟩ := em
  cases r <;> cases s <;>
    simp [ExtendedMantissa.roundedMantissa, ExtendedMantissa.accuracy, Accuracy.roundToNearestEven]
  omega

/-- How far a mantissa is shifted to its place. -/
def shift (m : Nat) (e : Int) : Nat :=
  (Format.binary64.targetExponent (totalExponent m e) - e).toNat

theorem shiftToTargetExponent_fst (m : Nat) (e : Int) :
    (shiftToTargetExponent .binary64 m e .exact).1.mantissa = m / 2 ^ shift m e :=
  mantissa_shiftRight _ _

theorem shiftToTargetExponent_snd (m : Nat) (e : Int) :
    (shiftToTargetExponent .binary64 m e .exact).2 = e + shift m e := rfl

theorem targetExponent_le {m : Nat} {e : Int} {b : Nat} (h : totalExponent m e ≤ b) :
    Format.binary64.targetExponent (totalExponent m e) ≤ b := by
  have hmin : Format.binary64.minExponent = -1074 := by decide
  unfold Format.targetExponent
  omega

theorem add_shift_le {m : Nat} {e : Int} {b : Nat} (h : totalExponent m e ≤ b) :
    e + shift m e ≤ b := by
  have htarget := targetExponent_le h
  unfold shift
  unfold totalExponent at h htarget ⊢
  omega

/-- Rounding moves the leading bit up by one place at most. -/
theorem roundWithAccuracy_below (s : Sign) {m : Nat} {e : Int} {b : Nat}
    (h : totalExponent m e ≤ b) : Below (b + 1) (roundWithAccuracy .binary64 s m e .exact) := by
  unfold roundWithAccuracy
  have hfst := shiftToTargetExponent_fst m e
  have hsnd := shiftToTargetExponent_snd m e
  generalize shiftToTargetExponent .binary64 m e .exact = first at hfst hsnd ⊢
  obtain ⟨em, e₁⟩ := first
  have hround : em.roundedMantissa ≤ 2 ^ (m.log2 + 1 - shift m e) := by
    have hle := roundedMantissa_le em
    have hlt := div_two_pow_lt m (shift m e)
    simp only at hfst
    omega
  have hrounded : totalExponent em.roundedMantissa e₁ ≤ ((b + 1 : Nat) : Int) := by
    have hlog := log2_le_of_le_two_pow hround
    have hplace := add_shift_le h
    simp only at hsnd
    unfold totalExponent at h ⊢
    omega
  dsimp only
  -- The rounded mantissa may have one bit too many; shifting it again rounds nothing.
  have hfst' := shiftToTargetExponent_fst em.roundedMantissa e₁
  have hsnd' := shiftToTargetExponent_snd em.roundedMantissa e₁
  generalize shiftToTargetExponent .binary64 em.roundedMantissa e₁ .exact = second at hfst' hsnd' ⊢
  obtain ⟨em', e₂⟩ := second
  dsimp only at hfst' hsnd' ⊢
  split
  · trivial
  · rename_i hne
    have hlt := div_two_pow_lt em.roundedMantissa (shift em.roundedMantissa e₁)
    rw [← hfst'] at hlt
    have hlog := (Nat.log2_lt hne).2 hlt
    show totalExponent em'.mantissa e₂ ≤ ((b + 1 : Nat) : Int)
    unfold totalExponent at hrounded ⊢
    omega

theorem mul_below {u v : UnpackedFloat} {b c : Nat} (hu : Below b u) (hv : Below c v) :
    Below (b + c + 1) (UnpackedFloat.mul .binary64 u v) := by
  match u, v, hu, hv with
  | .zero _, .zero _, _, _ => trivial
  | .zero _, .finite _ _ _ _, _, _ => trivial
  | .finite _ _ _ _, .zero _, _, _ => trivial
  | .finite s m e hm, .finite t n f hn, hu, hv =>
    have hlog := log2_mul_le hm hn
    have hu : totalExponent m e ≤ b := hu
    have hv : totalExponent n f ≤ c := hv
    have hprod : totalExponent (m * n) (e + f) ≤ ((b + c : Nat) : Int) := by
      unfold totalExponent at *
      omega
    exact roundWithAccuracy_below (s * t) hprod

/-! ### Storing -/

/-- What is read back of a number after it was stored. -/
def stored (u : UnpackedFloat) : UnpackedFloat :=
  UnpackedFloat.unpack .binary64 (UnpackedFloat.pack .binary64 u)

theorem unpack_packComponents_below (s : Sign) {e : BitVec 11} (m : BitVec 52) {b : Nat}
    (hones : e ≠ -1#11) (he : e.toNat ≤ b + 1022) :
    Below b (UnpackedFloat.unpack .binary64 (packComponents .binary64 s e m)) := by
  have hbias : (Format.binary64.exponentBias : Int) = 1023 := by decide
  have hm := m.isLt
  simp only [UnpackedFloat.unpack, unpackExponent_packComponents, unpackMantissa_packComponents]
  rw [if_neg hones]
  split
  · rename_i hzero
    split
    · trivial
    · have hlog : m.toNat.log2 ≤ 52 := log2_le_of_le_two_pow hm.le
      show totalExponent _ _ ≤ (b : Int)
      rw [hzero, hbias]
      unfold totalExponent
      simp
      omega
  · have hlog := Binary32.log2_implicit m
    show totalExponent _ _ ≤ (b : Int)
    rw [hbias]
    unfold totalExponent
    omega

theorem stored_below {u : UnpackedFloat} {b : Nat} (h : Below b u) (hb : b ≤ 972) :
    Below b (stored u) := by
  cases u with
  | zero s => cases s <;> trivial
  | infinity s => contradiction
  | notANumber => contradiction
  | finite s m e hm =>
    have h : totalExponent m e ≤ b := h
    unfold totalExponent at h
    have hbias : (Format.binary64.exponentBias : Int) = 1023 := by decide
    have hbits : Format.binary64.mantissaBits = 53 := rfl
    generalize hk : (e + Format.binary64.exponentBias + (52 : Nat)).toNat = k
    have hk' : k ≤ 2046 := by omega
    simp only [stored, UnpackedFloat.pack, hk]
    rw [if_neg (by omega)]
    split
    · rename_i hlog
      have hval : (BitVec.ofNat 11 k).toNat = k := by
        rw [BitVec.toNat_ofNat]
        omega
      refine unpack_packComponents_below s _ ?_ (by omega)
      intro hones
      have hmax := congrArg BitVec.toNat hones
      rw [hval] at hmax
      simp at hmax
      omega
    · exact unpack_packComponents_below s _ (by decide) (by simp)

/-! ### Floats -/

/-- A float as the number it stands for. -/
def view (x : Float) : UnpackedFloat := x.toModel.unpack

theorem view_mul (x y : Float) :
    view (x * y) = stored (UnpackedFloat.mul .binary64 (view x) (view y)) := rfl

theorem view_mul_below {x y : Float} {b c : Nat} (hx : Below b (view x)) (hy : Below c (view y))
    (hle : b + c + 1 ≤ 972) : Below (b + c + 1) (view (x * y)) := by
  rw [view_mul]
  exact stored_below (mul_below hx hy) hle

theorem isInf_eq_false {x : Float} {b : Nat} (h : Below b (view x)) : x.isInf = false := by
  have hview : x.isInf = (view x).isInf := rfl
  rw [hview]
  generalize view x = u at h
  cases u with
  | infinity s => contradiction
  | notANumber => rfl
  | zero s => rfl
  | finite s m e hm => rfl

theorem normalize_below {n b : Nat} (h : n.log2 + 1 ≤ b) (z : Sign) :
    Below (b + 1) (UnpackedFloat.normalize .binary64 n 0 z) := by
  unfold UnpackedFloat.normalize
  split
  · rename_i hlt
    have hneg : (n : Int) < 0 := Int.compare_eq_lt.1 hlt
    omega
  · trivial
  · unfold UnpackedFloat.round UnpackedFloat.decreaseExponent
    dsimp only
    generalize (0 - Format.binary64.targetExponent _).toNat = k
    have hlog := log2_shiftLeft_le n k
    refine roundWithAccuracy_below _ ?_
    show totalExponent (n <<< k) (0 - (k : Int)) ≤ b
    unfold totalExponent
    omega

theorem log2_toNat_lt (n : UInt64) : n.toNat.log2 + 1 ≤ 64 := by
  have hlog := log2_le_of_lt_two_pow (j := 63) n.toNat_lt
  omega

theorem view_toFloat_below (n : UInt64) : Below 65 (view n.toFloat) := by
  have hview : view n.toFloat
      = stored (UnpackedFloat.normalize .binary64 n.toNat 0 .positive) := rfl
  rw [hview]
  exact stored_below (normalize_below (log2_toNat_lt n) .positive) (by decide)

theorem view_exactPower_below :
    ∀ k : Fin 23, Below (4 * k + 1) (view (Float.exactlyRepresentablePowersOfTen[k])) := by
  decide +kernel

theorem ofScientific_below {n k : Nat} (hn : n < 2 ^ 64) (hk : k ≤ 200) :
    Below (67 + 4 * k) (UnpackedFloat.ofScientific .binary64 n (k : Int)) := by
  unfold UnpackedFloat.ofScientific
  split
  · trivial
  · rename_i hne
    have hpow : (2 : Int) ^ Format.binary64.exponentBits = 2048 := by decide
    have hbits : Format.binary64.mantissaBits = 53 := rfl
    have hlog := log2_le_of_lt_two_pow (j := 63) hn
    have hshift := log2_shiftLeft_le n 53
    have hten : (10 ^ k).log2 ≤ 4 * k := by
      refine log2_le_of_le_two_pow ?_
      rw [Nat.pow_mul]
      exact Nat.pow_le_pow_left (by decide) k
    rw [if_neg (by rw [hpow]; omega), if_neg (by rw [hpow]; omega), if_pos (Int.natCast_nonneg k)]
    refine (mul_below (b := 64) (c := 4 * k + 1) ?_ ?_).mono (by omega)
    · show totalExponent (n <<< 53) (-53) ≤ 64
      unfold totalExponent
      omega
    · show totalExponent (10 ^ k) 0 ≤ ((4 * k + 1 : Nat) : Int)
      unfold totalExponent
      omega

/-- A word of 64 bits times a power of ten, as a float. -/
theorem view_ofScientific_below {n k : Nat} (hn : n < 2 ^ 64) (hk : k ≤ 200) :
    Below (67 + 4 * k) (view (Float.ofScientific n false k)) := by
  unfold Float.ofScientific
  split
  · -- Both factors are floats, so their product is rounded only once.
    rename_i hfast
    have hpower := view_exactPower_below ⟨k, by omega⟩
    have hprod := view_mul_below (view_toFloat_below n.toUInt64) hpower (by dsimp only; omega)
    exact hprod.mono (by dsimp only; omega)
  · exact stored_below (ofScientific_below hn hk) (by omega)

end LineArt.Binary64
