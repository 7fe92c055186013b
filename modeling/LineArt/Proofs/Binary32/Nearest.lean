import LineArt.Decimal.Rounding
import LineArt.Proofs.Binary64.Accuracy
import LineArt.Proofs.Decimal.Interval

/-!
# Binary32: nearest

A number in the interval of a 32-bit float is rounded to that float.  Just below a power of
two the numbers are placed one bit lower, and the rounded mantissa has one bit too many.
-/

namespace LineArt.Binary32

open Decimal (Binary)
open Float.Model (Format UnpackedFloat totalExponent)
open Float.Model.UnpackedFloat (Accuracy ExtendedMantissa Sign round roundWithAccuracy
  unpackExponent unpackMantissa)
open Rounding (IsRounded Represents exists_round exists_roundWithAccuracy lt_two_zpow
  mul_two_zpow_sub place settled two_zpow_eq two_zpow_le)

/-- A float that is no subnormal one has its leading bit in place. -/
theorem finite_canonical {x : Float32} {s : Sign} {m : ℕ} {e : ℤ} {hm : 0 < m}
    (h : view x = .finite s m e hm) : -149 ≤ e ∧ (2 ^ 23 ≤ m ∨ e = -149) := by
  have hbias : (Format.binary32.exponentBias : ℤ) = 127 := by decide
  unfold view Float32.Model.unpack UnpackedFloat.unpack at h
  dsimp only at h
  generalize x.toModel.toBits.toBitVec = bits at h
  split at h
  · split at h <;> contradiction
  · split at h
    · rename_i hsub
      have hzero : (@unpackExponent Format.binary32 bits).toNat = 0 := congrArg BitVec.toNat hsub
      split at h
      · contradiction
      · injection h with _ hm' he'
        omega
    · rename_i hsub
      have hne : (@unpackExponent Format.binary32 bits).toNat ≠ 0 :=
        fun heq => hsub (BitVec.eq_of_toNat_eq heq)
      injection h with _ hm' he'
      rw [toNat_implicit] at hm'
      have hm' : 2 ^ 23 + (@unpackMantissa Format.binary32 bits).toNat = m := hm'
      omega

/-! ### Rounding to a float -/

section Rounded

variable {m : ℕ} {e : ℤ} {v : ℚ}

theorem le_lower (m : ℕ) (e : ℤ) : (4 * m - 2 : ℚ) ≤ (binary32 m e).lower := by
  have hle : 4 * m ≤ (binary32 m e).lower + 2 := by
    show 4 * m ≤ (if (binary32 m e).closeBelow then 4 * m - 1 else 4 * m - 2) + 2
    split <;> omega
  have hle : (4 * m : ℚ) ≤ (binary32 m e).lower + 2 := by exact_mod_cast hle
  linarith

theorem lower_two_pow (he : -149 < e) : (binary32 (2 ^ 23) e).lower = 2 ^ 25 - 1 := by
  have hclose : (binary32 (2 ^ 23) e).closeBelow = true := by
    simp [binary32, he]
  unfold Binary.lower
  rw [if_pos hclose]
  show 4 * 2 ^ 23 - 1 = 2 ^ 25 - 1
  norm_num

/-- Below a power of two the interval reaches down half as far, elsewhere a whole half step. -/
theorem lower_of_lt (he : 2 ^ 23 < m ∨ e = -149) : (binary32 m e).lower = 4 * m - 2 := by
  have hclose : (binary32 m e).closeBelow ≠ true := by
    simp [binary32]
    omega
  unfold Binary.lower
  rw [if_neg hclose]
  rfl

/-- Where a number is placed like the float, it rounds to the mantissa of the float. -/
theorem isRounded_of_contains (h : (binary32 m e).Contains (v * 2 ^ e)) : IsRounded v m := by
  have hquarters : v * 2 ^ e = 4 * v * 2 ^ (e - 2) := by
    rw [zpow_sub₀ two_ne_zero]
    norm_num
    ring
  have hpos : (0 : ℚ) < 2 ^ (e - 2) := by positivity
  have hlower := h.lower
  have hupper := h.upper
  have heven := h.even_of_lower
  have heven' := h.even_of_upper
  have htop : ((binary32 m e).upper : ℚ) = 4 * m + 2 := by
    unfold Binary.upper
    push_cast
    rfl
  rw [hquarters, show (binary32 m e).exponent = e from rfl] at hlower hupper heven heven'
  rw [htop] at hupper heven'
  have hlower := le_of_mul_le_mul_right hlower hpos
  have hupper := le_of_mul_le_mul_right hupper hpos
  have hle := le_lower m e
  refine ⟨by linarith, by linarith, fun heq => heven ?_, fun heq => heven' ?_⟩
  · rw [show (binary32 m e).lower = 4 * v by linarith]
  · rw [show 4 * v = 4 * m + 2 by linarith]

theorem lt_of_contains (hmantissa : m < 2 ^ 24) (h : (binary32 m e).Contains v) :
    v < 2 ^ (e + 24) := by
  have hupper := h.upper
  have htop : ((binary32 m e).upper : ℚ) < 2 ^ 26 := by
    have hlt : (binary32 m e).upper < 2 ^ 26 := by
      unfold Binary.upper
      show 4 * m + 2 < 2 ^ 26
      omega
    exact_mod_cast hlt
  rw [two_zpow_eq (e := e - 2) 26 (by omega)]
  exact hupper.trans_lt (mul_lt_mul_of_pos_right htop (by positivity))

/-- A number of the interval below the least mantissa with its leading bit in place: the float
is a power of two, and the number lies in the upper quarter step below it. -/
theorem below_two_pow_of_contains (hlow : -149 ≤ e) (hlead : 2 ^ 23 ≤ m ∨ e = -149)
    (h : (binary32 m e).Contains v) (he : e ≠ -149) (hv : v < 2 ^ (e + 23)) :
    m = 2 ^ 23 ∧ (2 ^ 25 - 1) * 2 ^ (e - 2) ≤ v := by
  have hlower := h.lower
  have hm : 2 ^ 23 ≤ m := hlead.resolve_right he
  rcases hm.eq_or_lt with rfl | hlt
  · have hcast : ((2 ^ 25 - 1 : ℕ) : ℚ) = 2 ^ 25 - 1 := by norm_num
    rw [lower_two_pow (by omega), hcast] at hlower
    exact ⟨rfl, hlower⟩
  · exfalso
    have hbig : (2 ^ 25 : ℚ) ≤ (binary32 m e).lower := by
      have hle : 2 ^ 25 ≤ (binary32 m e).lower := by
        rw [lower_of_lt (.inl hlt)]
        omega
      exact_mod_cast hle
    rw [two_zpow_eq (e := e - 2) 25 (by omega)] at hv
    have hle := mul_le_mul_of_nonneg_right hbig (show (0 : ℚ) ≤ 2 ^ (e - 2) by positivity)
    exact absurd (hle.trans hlower) (not_le.2 hv)

theorem isRounded_two_pow (hlow : (2 ^ 25 - 1) * 2 ^ (e - 2) ≤ v) (hhigh : v < 2 ^ (e + 23)) :
    IsRounded (v * 2 ^ (-(e - 1))) (2 ^ 24) := by
  have hpos : (0 : ℚ) < 2 ^ (-(e - 1)) := by positivity
  have hhalf : (2 : ℚ) ^ (e - 2) * 2 ^ (-(e - 1)) = 1 / 2 := by
    rw [← zpow_add₀ two_ne_zero, show e - 2 + -(e - 1) = -1 by ring]
    norm_num
  have hfull : (2 : ℚ) ^ (e + 23) * 2 ^ (-(e - 1)) = 2 ^ 24 := by
    rw [two_zpow_eq (e := e - 1) 24 (by omega), mul_assoc, ← zpow_add₀ two_ne_zero,
      add_neg_cancel, zpow_zero, mul_one]
  have hlow := mul_le_mul_of_nonneg_right hlow hpos.le
  have hhigh := mul_lt_mul_of_pos_right hhigh hpos
  rw [mul_assoc, hhalf] at hlow
  rw [hfull] at hhigh
  have heven : Even (2 ^ 24) := by decide
  refine ⟨?_, ?_, fun _ => heven, fun _ => heven⟩ <;> push_cast <;> linarith

theorem place_eq (n : ℕ) (f : ℤ) :
    place .binary32 n f = max (totalExponent n f - 24) (-149) := by
  have hmin : Format.binary32.minExponent = -149 := by decide
  unfold place Format.targetExponent
  rw [hmin]
  rfl

section Placed

variable (hm : 0 < m) (hmantissa : m < 2 ^ 24) (hlow : -149 ≤ e) (hlead : 2 ^ 23 ≤ m ∨ e = -149)
  {n : ℕ} {f : ℤ} (hn : 0 < n ∨ f ≤ -149) (hv : (n : ℚ) ≤ v) (hv' : v < n + 1)
  (h : (binary32 m e).Contains (v * 2 ^ f))

include hmantissa hlow hlead hn hv hv' h

/-- A number of the interval is placed like its float, or one bit lower where it lies below
the power of two that the float is. -/
theorem place_of_contains :
    place .binary32 n f = e ∨
      m = 2 ^ 23 ∧ place .binary32 n f = e - 1 ∧
        (2 ^ 25 - 1) * 2 ^ (e - 2) ≤ v * 2 ^ f ∧ v * 2 ^ f < 2 ^ (e + 23) := by
  have hplace := place_eq n f
  have hceil := lt_two_zpow n f hv'
  have htotal : totalExponent n f ≤ e + 24 := by
    rcases n.eq_zero_or_pos with rfl | hpos
    · have hzero : totalExponent 0 f = 1 + f := by simp [totalExponent]
      omega
    · have hfloor := two_zpow_le hpos f hv
      have hlt := (zpow_lt_zpow_iff_right₀ one_lt_two).1
        (hfloor.trans_lt (lt_of_contains hmantissa h))
      omega
  by_cases hsame : place .binary32 n f = e
  · exact .inl hsame
  · -- It cannot be placed higher, for it is below the next power of two.
    have hsmall : v * 2 ^ f < 2 ^ (e + 23) :=
      hceil.trans_le (zpow_le_zpow_right₀ one_le_two (by omega))
    have he : e ≠ -149 := by
      rintro rfl
      omega
    obtain ⟨hm, hquarter⟩ := below_two_pow_of_contains hlow hlead h he hsmall
    have hlarge : (2 : ℚ) ^ (e + 22) ≤ v * 2 ^ f := by
      refine le_trans ?_ hquarter
      rw [two_zpow_eq (e := e - 2) 24 (by omega)]
      exact mul_le_mul_of_nonneg_right (by norm_num) (by positivity)
    have hle := (zpow_lt_zpow_iff_right₀ one_lt_two).1 (hlarge.trans_lt hceil)
    exact .inr ⟨hm, by omega, hquarter, hsmall⟩

/-- What a number of the interval of a float is rounded to, at the place it takes, is the
mantissa and exponent of the float. -/
theorem settled_of_contains (s : Sign) {r : ℕ}
    (hr : IsRounded (v * 2 ^ (f - place .binary32 n f)) r) :
    settled .binary32 s r (place .binary32 n f) = .finite s m e hm := by
  have hbits : Format.binary32.mantissaBits = 24 := rfl
  rw [← mul_two_zpow_sub] at hr
  rcases place_of_contains hmantissa hlow hlead hn hv hv' h with
    hsame | ⟨rfl, hbelow, hquarter, hsmall⟩
  · rw [hsame] at hr ⊢
    rw [← Binary64.mul_two_zpow_cancel (v * 2 ^ f : ℚ) e] at h
    obtain rfl : r = m := hr.unique (isRounded_of_contains h)
    unfold settled
    rw [dif_neg hm.ne', if_neg (by rw [hbits]; omega)]
  · rw [hbelow] at hr ⊢
    obtain rfl : r = 2 ^ 24 := hr.unique (isRounded_two_pow hquarter hsmall)
    unfold settled
    rw [dif_neg (by decide), hbits, if_pos rfl, sub_add_cancel]

end Placed

section Rounds

variable (hm : 0 < m) (hmantissa : m < 2 ^ 24) (hlow : -149 ≤ e) (hlead : 2 ^ 23 ≤ m ∨ e = -149)
  {n : ℕ} {f : ℤ} (s : Sign)

include hmantissa hlow hlead

/-- A number of the interval of a float is rounded to the mantissa and exponent of the float. -/
theorem round_of_contains (hn : 0 < n) (h : (binary32 m e).Contains (n * 2 ^ f)) :
    round .binary32 s n f = .finite s m e hm := by
  obtain ⟨r, hr, -, hround⟩ := exists_round .binary32 s hn f
  rw [hround]
  exact settled_of_contains hm hmantissa hlow hlead (.inl hn) le_rfl (lt_add_one _) h s hr

/-- The same for a number that was cut off below the place it takes. -/
theorem roundWithAccuracy_of_contains {a : Accuracy} (hbits : 2 ^ 23 ≤ n ∨ f ≤ -149)
    (hv : Represents (ExtendedMantissa.ofMantissaAndAccuracy n a) v)
    (h : (binary32 m e).Contains (v * 2 ^ f)) :
    roundWithAccuracy .binary32 s n f a = .finite s m e hm := by
  have hplace : f ≤ place .binary32 n f := by
    rw [place_eq]
    rcases hbits with hbits | hbits
    · have hlog : 23 ≤ n.log2 := (Nat.le_log2 (by omega)).2 hbits
      unfold totalExponent
      omega
    · omega
  obtain ⟨hfloor, hceil⟩ := hv.bounds
  rw [Rounding.mantissa_ofMantissaAndAccuracy] at hfloor hceil
  obtain ⟨r, hr, -, hround⟩ := exists_roundWithAccuracy .binary32 s hplace hv
  rw [hround]
  exact settled_of_contains hm hmantissa hlow hlead (hbits.imp_left fun hn => by omega) hfloor
    hceil h s hr

end Rounds

end Rounded

theorem ofModel_pack_view (x : Float32) : Float32.ofModel (Float32.Model.pack (view x)) = x := by
  obtain ⟨⟨word, hvalid⟩⟩ := x
  have hbits : UInt32.ofBitVec (Float.Model.UnpackedFloat.pack Format.binary32
      (UnpackedFloat.unpack Format.binary32 word.toBitVec)) = word :=
    congrArg UInt32.ofBitVec (pack_unpack word.toBitVec hvalid)
  show Float32.ofModel ⟨_, _⟩ = _
  congr 2

/-- A 64-bit float in the interval of a 32-bit one is rounded to it. -/
theorem toBinary32_of_contains {x : Float32} {s : Sign} {m : ℕ} {e : ℤ} {hm : 0 < m}
    (hx : view x = .finite s m e hm) {y : Float} {c : ℚ} (hy : Binary64.Normal s (Binary64.view y) c)
    (h : (binary32 m e).Contains c) : y.toBinary32 = x := by
  obtain ⟨hmantissa, -⟩ := finite_bounds hx
  obtain ⟨hlow, hlead⟩ := finite_canonical hx
  unfold Float.toBinary32
  rw [show y.toModel.unpack = Binary64.view y from rfl]
  generalize Binary64.view y = u at hy ⊢
  obtain ⟨hn, -, -, -⟩ := hy
  dsimp only
  rw [round_of_contains hm hmantissa hlow hlead s hn h, ← hx]
  exact ofModel_pack_view x

end LineArt.Binary32
