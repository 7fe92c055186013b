import LineArt.Decimal.Layout
import LineArt.Proofs.Binary32.Packing

/-!
# The range of shortest decimals

A shortest decimal is a grid point that rounds to its number, so it is positive and
not far above it: the decimals of 32-bit floats stay below `10 ^ 39`.
-/

namespace LineArt

namespace Decimal

theorem pow_length_digits_le {n : Nat} (h : 0 < n) : 10 ^ ((digits n).length - 1) ≤ n := by
  fun_induction digits n with
  | case1 n hn =>
    rw [List.length_singleton, Nat.sub_self, Nat.pow_zero]
    exact h
  | case2 n hn ih =>
    have hpow := ih (by omega)
    have hlen := List.length_pos_iff.2 (digits_ne_nil (n / 10))
    obtain ⟨k, hk⟩ : ∃ k, (digits (n / 10)).length = k + 1 :=
      ⟨_, (Nat.succ_pred_eq_of_pos hlen).symm⟩
    rw [hk, Nat.add_sub_cancel] at hpow
    rw [List.length_append, hk, List.length_singleton, Nat.add_sub_cancel, Nat.pow_succ]
    omega

/-- A positive decimal below `10 ^ 39`. -/
structure Scaled.Moderate (d : Scaled) : Prop where
  pos : 0 < d.significand
  lt : d.significand * 10 ^ d.exponent.toNat < 10 ^ (39 + (-d.exponent).toNat)

/-- The leading digit of a moderate decimal stands at most 39 places before the point. -/
theorem Scaled.Moderate.length_add_exponent_le {d : Scaled} (h : d.Moderate) :
    (digits d.significand).length + d.exponent ≤ 39 := by
  have hlow := Nat.mul_le_mul_right (10 ^ d.exponent.toNat) (pow_length_digits_le h.pos)
  rw [← Nat.pow_add] at hlow
  have hpow := (Nat.pow_lt_pow_iff_right (by decide)).1 (hlow.trans_lt h.lt)
  omega

namespace Binary

variable (b : Binary) (tie : Tie) (k : Int)

theorem quarter_pos : 0 < b.quarter k :=
  Nat.mul_pos (Nat.pow_pos (by decide)) (Nat.pow_pos (by decide))

theorem le_of_owns {p : Nat} (h : b.owns k p = true) :
    b.lower * b.quarter k ≤ p * b.grid k ∧ p * b.grid k ≤ b.upper * b.quarter k := by
  unfold owns at h
  dsimp only at h
  split at h
  · simpa using h
  · simp only [Bool.and_eq_true, decide_eq_true_eq] at h
    omega

theorem nearer_eq_or (n : Nat) : b.nearer tie k n = n ∨ b.nearer tie k n = n + 1 := by
  unfold nearer
  dsimp only
  split
  · exact .inl rfl
  · split
    · exact .inr rfl
    · cases tie with
      | away => exact .inr rfl
      | toEven =>
        dsimp only
        split
        · exact .inl rfl
        · exact .inr rfl

/-- The grid point that is taken rounds to the number. -/
theorem owns_of_onGrid? {p : Nat} (h : b.onGrid? tie k = some p) : b.owns k p = true := by
  unfold onGrid? at h
  dsimp only at h
  generalize 4 * b.mantissa * b.quarter k / b.grid k = n at h
  split at h
  · rename_i hn hsucc
    obtain rfl := Option.some.inj h
    rcases b.nearer_eq_or tie k n with hp | hp
    · rwa [hp]
    · rwa [hp]
  · obtain rfl := Option.some.inj h
    assumption
  · obtain rfl := Option.some.inj h
    assumption
  · contradiction

section Bounded

variable {b tie k} (hpos : 0 < b.mantissa) (hmantissa : b.mantissa < 2 ^ 24)
  (hexponent : b.exponent ≤ 104)

include hpos hmantissa hexponent

theorem moderate_of_owns {p : Nat} (h : b.owns k p = true) : Scaled.Moderate ⟨p, k⟩ := by
  obtain ⟨hlow, hhigh⟩ := b.le_of_owns k h
  have hquarter := b.quarter_pos k
  constructor
  · show 0 < p
    have hlower : 0 < b.lower := by
      unfold lower
      split <;> omega
    have hprod := Nat.mul_pos hlower hquarter
    exact Nat.pos_of_mul_pos_right (hprod.trans_le hlow)
  · show p * 10 ^ k.toNat < 10 ^ (39 + (-k).toNat)
    have hgrid : 10 ^ k.toNat ≤ b.grid k := Nat.le_mul_of_pos_right _ (Nat.pow_pos (by decide))
    have hupper : b.upper ≤ 2 ^ 26 := by
      unfold upper
      omega
    have hweight : b.quarter k ≤ 2 ^ 102 * 10 ^ (-k).toNat :=
      Nat.mul_le_mul_right _ (Nat.pow_le_pow_right (by decide) (by omega))
    -- The interval ends below 2 ^ 128, which is below 10 ^ 39.
    calc p * 10 ^ k.toNat ≤ p * b.grid k := Nat.mul_le_mul_left p hgrid
      _ ≤ b.upper * b.quarter k := hhigh
      _ ≤ 2 ^ 26 * (2 ^ 102 * 10 ^ (-k).toNat) := Nat.mul_le_mul hupper hweight
      _ < 10 ^ 39 * 10 ^ (-k).toNat := by
        rw [← Nat.mul_assoc]
        exact Nat.mul_lt_mul_of_pos_right (by decide) (Nat.pow_pos (by decide))
      _ = 10 ^ (39 + (-k).toNat) := (Nat.pow_add 10 39 _).symm

theorem exact_moderate : b.exact.Moderate := by
  have htwo : 0 < 2 ^ b.exponent.toNat := Nat.pow_pos (by decide)
  have hfive : 0 < 5 ^ (-b.exponent).toNat := Nat.pow_pos (by decide)
  constructor
  · exact Nat.mul_pos (Nat.mul_pos hpos htwo) hfive
  · have hplaces : b.exact.exponent.toNat = 0 := by
      show (min b.exponent 0).toNat = 0
      omega
    have hscale : (-b.exact.exponent).toNat = (-b.exponent).toNat := by
      show (-(min b.exponent 0)).toNat = (-b.exponent).toNat
      omega
    have hwhole : b.mantissa * 2 ^ b.exponent.toNat < 2 ^ 24 * 2 ^ 104 := by
      have hpow : 2 ^ b.exponent.toNat ≤ 2 ^ 104 := Nat.pow_le_pow_right (by decide) (by omega)
      exact Nat.mul_lt_mul_of_lt_of_le hmantissa hpow (by decide)
    have hpart : 5 ^ (-b.exponent).toNat ≤ 10 ^ (-b.exponent).toNat :=
      Nat.pow_le_pow_left (by decide) _
    rw [hplaces, hscale, Nat.pow_zero, Nat.mul_one]
    calc b.exact.significand
        = b.mantissa * 2 ^ b.exponent.toNat * 5 ^ (-b.exponent).toNat := rfl
      _ < 2 ^ 24 * 2 ^ 104 * 10 ^ (-b.exponent).toNat :=
        Nat.mul_lt_mul_of_lt_of_le hwhole hpart (Nat.pow_pos (by decide))
      _ < 10 ^ 39 * 10 ^ (-b.exponent).toNat :=
        Nat.mul_lt_mul_of_pos_right (by decide) (Nat.pow_pos (by decide))
      _ = 10 ^ (39 + (-b.exponent).toNat) := (Nat.pow_add 10 39 _).symm

theorem search_moderate (n : Nat) : (b.search tie n).Moderate := by
  induction n with
  | zero => exact exact_moderate hpos hmantissa hexponent
  | succ n ih =>
    unfold search
    dsimp only
    split
    · rename_i p hp
      exact moderate_of_owns hpos hmantissa hexponent (b.owns_of_onGrid? tie _ hp)
    · exact ih

theorem shortest_moderate : (b.shortest tie).Moderate := search_moderate hpos hmantissa hexponent _

end Bounded

end Binary

end Decimal

namespace Binary32

open Float.Model (Format UnpackedFloat)
open Float.Model.UnpackedFloat (unpackExponent unpackMantissa)

/-- The mantissa and the exponent of a float are those of its format. -/
theorem finite_bounds {x : Float32} {s : UnpackedFloat.Sign} {m : Nat} {e : Int} {hm : 0 < m}
    (h : view x = .finite s m e hm) : m < 2 ^ 24 ∧ e ≤ 104 := by
  have hbias : (Format.binary32.exponentBias : Int) = 127 := by decide
  unfold view Float32.Model.unpack UnpackedFloat.unpack at h
  dsimp only at h
  generalize x.toModel.toBits.toBitVec = bits at h
  have hexponent : (@unpackExponent Format.binary32 bits).toNat < 256 := BitVec.isLt _
  split at h
  · split at h <;> contradiction
  · rename_i hones
    have hne : (@unpackExponent Format.binary32 bits).toNat ≠ 255 :=
      fun heq => hones (BitVec.eq_of_toNat_eq heq)
    split at h
    · rename_i hsub
      have hzero : (@unpackExponent Format.binary32 bits).toNat = 0 := congrArg BitVec.toNat hsub
      split at h
      · contradiction
      · have hlt : (@unpackMantissa Format.binary32 bits).toNat < 2 ^ 23 := BitVec.isLt _
        injection h with _ hm' he'
        omega
    · have hlt : (1#1 ++ @unpackMantissa Format.binary32 bits).toNat < 2 ^ 24 := BitVec.isLt _
      injection h with _ hm' he'
      omega

end Binary32

end LineArt
