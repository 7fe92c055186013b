import LineArt.Proofs.Decimal.Coincidence
import LineArt.Proofs.Decimal.Interval
import LineArt.Proofs.Json.Scaling

/-!
# Midpoints

Scaling a word may carry it a little way, but never across a midpoint between two 32-bit
floats, if the decimal is not written finer than the floats lie there.  Where the decimal
keeps its distance from the midpoint, that is clear.  Where it lies on the midpoint, its
power of ten is exact and so is the result.  The few decimals that come closer than two
roundings may carry them are found as near coincidences of the decimal grid with the
midpoints, and are scaled one by one.
-/

namespace LineArt.Json

open Binary64 (Normal Short view)
open Decimal (Steps pow_toNat)
open Decimal.Steps (Near gap nearCandidates)

/-! ### Grids -/

/-- The exponent of the finest decimal grid whose step is no finer than `2 ^ f`. -/
def gridAt (f : ℤ) : ℤ := -(-f * 1233 / 4096)

theorem gridAt_bounds_of_lt : ∀ i : Fin 254, (2 : ℚ) ^ ((i : ℤ) - 150) ≤ 10 ^ gridAt (i - 150) ∧
    (10 : ℚ) ^ (gridAt (i - 150) - 1) < (1 - 9 / 2 ^ 30) * 2 ^ ((i : ℤ) - 150) := by
  decide +kernel

section Exponent

variable {f : ℤ} (hlow : -150 ≤ f) (hhigh : f ≤ 103)

include hlow hhigh

theorem exists_index : ∃ i : Fin 254, (i : ℤ) - 150 = f :=
  ⟨⟨(f + 150).toNat, by omega⟩, by simp; omega⟩

theorem gridAt_bounds :
    (2 : ℚ) ^ f ≤ 10 ^ gridAt f ∧ (10 : ℚ) ^ (gridAt f - 1) < (1 - 9 / 2 ^ 30) * 2 ^ f := by
  obtain ⟨i, rfl⟩ := exists_index hlow hhigh
  exact gridAt_bounds_of_lt i

/-- A decimal step that is short of the binary one by little at most is none shorter. -/
theorem gridAt_le {k : ℤ} (h : (1 - 9 / 2 ^ 30) * (2 : ℚ) ^ f ≤ 10 ^ k) : gridAt f ≤ k := by
  have hlt := (gridAt_bounds hlow hhigh).2.trans_le h
  have hlt := (zpow_lt_zpow_iff_right₀ (by norm_num)).1 hlt
  omega

end Exponent

/-- A decimal step of the grid at an exponent, in a unit that makes both steps whole. -/
def decimalWeight (f : ℤ) : ℤ := 10 ^ (gridAt f).toNat * 2 ^ (-f).toNat

/-- A binary step in the same unit. -/
def binaryWeight (f : ℤ) : ℤ := 2 ^ f.toNat * 10 ^ (-gridAt f).toNat

def unit (f : ℤ) : ℚ := 10 ^ (-gridAt f).toNat * 2 ^ (-f).toNat

theorem unit_pos (f : ℤ) : 0 < unit f := by
  unfold unit
  positivity

theorem cast_decimalWeight (f : ℤ) : (decimalWeight f : ℚ) = 10 ^ gridAt f * unit f := by
  have hpow := pow_toNat (a := 10) (by norm_num) (gridAt f)
  unfold decimalWeight unit
  push_cast
  rw [hpow]
  ring

theorem cast_binaryWeight (f : ℤ) : (binaryWeight f : ℚ) = 2 ^ f * unit f := by
  have hpow := pow_toNat two_ne_zero f
  unfold binaryWeight unit
  push_cast
  rw [hpow]
  ring

theorem cast_gap (f : ℤ) (s : Steps) :
    (gap (decimalWeight f) (binaryWeight f) s : ℚ)
      = (s.decimal * 10 ^ gridAt f - s.binary * 2 ^ f) * unit f := by
  unfold gap
  push_cast
  rw [cast_decimalWeight, cast_binaryWeight]
  ring

/-! ### Sides -/

/-- `c` lies where `v` does, seen from the midpoint `n * 2 ^ f`; it may have come to lie on the
midpoint if the even one of the two neighbours is on that side. -/
structure Keeps (n : ℕ) (f : ℤ) (v c : ℚ) : Prop where
  below : v < n * 2 ^ f → c < n * 2 ^ f ∨ c = n * 2 ^ f ∧ Even ((n - 1) / 2)
  above : n * 2 ^ f < v → n * 2 ^ f < c ∨ c = n * 2 ^ f ∧ Even ((n + 1) / 2)
  on : v = n * 2 ^ f → c = n * 2 ^ f

instance (n : ℕ) (f : ℤ) (v c : ℚ) : Decidable (Keeps n f v c) :=
  decidable_of_iff ((v < n * 2 ^ f → c < n * 2 ^ f ∨ c = n * 2 ^ f ∧ Even ((n - 1) / 2)) ∧
      (n * 2 ^ f < v → n * 2 ^ f < c ∨ c = n * 2 ^ f ∧ Even ((n + 1) / 2)) ∧
      (v = n * 2 ^ f → c = n * 2 ^ f))
    ⟨fun h => ⟨h.1, h.2.1, h.2.2⟩, fun h => ⟨h.below, h.above, h.on⟩⟩

section Keeps

variable {n : ℕ} {f : ℤ} {v c : ℚ} (h : Keeps n f v c)

include h

theorem Keeps.le (hle : v ≤ n * 2 ^ f) (heven : v = n * 2 ^ f → Even ((n - 1) / 2)) :
    c ≤ n * 2 ^ f ∧ (c = n * 2 ^ f → Even ((n - 1) / 2)) := by
  rcases hle.lt_or_eq with hlt | heq
  · rcases h.below hlt with hc | ⟨hc, hside⟩
    · exact ⟨hc.le, fun heq => absurd heq hc.ne⟩
    · exact ⟨hc.le, fun _ => hside⟩
  · exact ⟨(h.on heq).le, fun _ => heven heq⟩

theorem Keeps.ge (hle : n * 2 ^ f ≤ v) (heven : v = n * 2 ^ f → Even ((n + 1) / 2)) :
    n * 2 ^ f ≤ c ∧ (c = n * 2 ^ f → Even ((n + 1) / 2)) := by
  rcases hle.lt_or_eq with hlt | heq
  · rcases h.above hlt with hc | ⟨hc, hside⟩
    · exact ⟨hc.le, fun heq => absurd heq hc.ne'⟩
    · exact ⟨hc.ge, fun _ => hside⟩
  · exact ⟨(h.on heq.symm).ge, fun _ => heven heq.symm⟩

end Keeps

/-- Whether the scaled word of a near coincidence keeps its side. -/
def scaledKeeps (f : ℤ) (s : Steps) : Bool :=
  match scaleByPower (Float.ofNat s.decimal.toNat) (gridAt f) with
  | .error _ => false
  | .ok y =>
    match view y with
    | .finite .positive m e _ =>
      decide (Keeps s.binary.toNat f (s.decimal * 10 ^ gridAt f) (m * 2 ^ e))
    | _ => false

/-- Whether all near coincidences at an exponent keep their sides, and have no digit to spare. -/
def coincidencesKeep (f : ℤ) : Bool :=
  (nearCandidates (decimalWeight f) (binaryWeight f)).all fun s =>
    !decide (Near (decimalWeight f) (binaryWeight f) s)
      || (s.decimal % 10 ≠ 0 && scaledKeeps f s)

theorem coincidencesKeep_of_lt : ∀ i : Fin 254, coincidencesKeep (i - 150) = true := by
  decide +kernel

/-! ### Decimals on a midpoint -/

theorem le_of_five_pow {x y i a c : ℕ} (h : x * 5 ^ i * 2 ^ a = y * 2 ^ c) (hpos : 0 < y)
    (hlt : y < 2 ^ 29) : i ≤ 12 := by
  have hcoprime : Nat.Coprime (5 ^ i) (2 ^ c) := Nat.Coprime.pow _ _ (by decide)
  have hdvd : 5 ^ i ∣ y * 2 ^ c := ⟨x * 2 ^ a, by rw [← h]; ring⟩
  have hle := Nat.le_of_dvd hpos (hcoprime.dvd_of_dvd_mul_right hdvd)
  by_contra hi
  have hpow : 5 ^ 13 ≤ 5 ^ i := Nat.pow_le_pow_right (by decide) (by omega)
  omega

section Word

variable {p n : ℕ} {k f : ℤ} (hp : 0 < p) (hlt : p < 2 ^ 29) (hn : 0 < n) (hn' : n < 2 ^ 25)

include hp hlt hn hn'

/-- A decimal on a midpoint has no high power of ten. -/
theorem exponent_of_on (h : (p : ℚ) * 10 ^ k = n * 2 ^ f) : -22 ≤ k ∧ k ≤ 22 := by
  have hten : (10 : ℚ) ^ k = 5 ^ k * 2 ^ k := by
    rw [← mul_zpow]
    norm_num
  have htwo := pow_toNat (two_ne_zero (α := ℚ)) (f - k)
  rw [neg_sub] at htwo
  have hbinary : (p : ℚ) * 5 ^ k * 2 ^ (k - f).toNat = n * 2 ^ (f - k).toNat := by
    rw [htwo, zpow_sub₀ two_ne_zero]
    rw [hten] at h
    field_simp
    linarith
  obtain ⟨i, rfl | rfl⟩ := Int.eq_nat_or_neg k
  · rw [zpow_natCast] at hbinary
    have hnat : p * 5 ^ i * 2 ^ ((i : ℤ) - f).toNat = n * 2 ^ (f - i).toNat := by
      exact_mod_cast hbinary
    have hle := le_of_five_pow hnat hn (by omega)
    omega
  · have hfive : (0 : ℚ) < 5 ^ i := by positivity
    rw [zpow_neg, zpow_natCast, ← div_eq_mul_inv, div_mul_eq_mul_div, div_eq_iff hfive.ne'] at hbinary
    have hnat : n * 5 ^ i * 2 ^ (f - -(i : ℤ)).toNat = p * 2 ^ (-(i : ℤ) - f).toNat := by
      have hswap : (n : ℚ) * 5 ^ i * 2 ^ (f - -(i : ℤ)).toNat = p * 2 ^ (-(i : ℤ) - f).toNat := by
        rw [hbinary]
        ring
      exact_mod_cast hswap
    have hle := le_of_five_pow hnat hp hlt
    omega

theorem keeps_of_on {c : ℚ} (h : (p : ℚ) * 10 ^ k = n * 2 ^ f)
    (hexact : -22 ≤ k → k ≤ 22 → Short (p * 10 ^ k) → c = p * 10 ^ k) :
    Keeps n f (p * 10 ^ k) c := by
  obtain ⟨hk, hk'⟩ := exponent_of_on hp hlt hn hn' h
  have hshort : Short ((p : ℚ) * 10 ^ k) := ⟨n, by omega, f, h⟩
  rw [hexact hk hk' hshort, h]
  exact ⟨fun hv => absurd hv (lt_irrefl _), fun hv => absurd hv (lt_irrefl _), fun _ => rfl⟩

end Word

/-- Away from the midpoint two roundings carry nothing across. -/
theorem keeps_of_far {n : ℕ} {f : ℤ} {v c : ℚ} (hv : 0 < v) (hwithin : Within v c)
    (hfar : 9 / 2 ^ 55 * v < |v - n * 2 ^ f|) : Keeps n f v c := by
  obtain ⟨hlow, hhigh⟩ := abs_le.1 hwithin
  refine ⟨fun hlt => .inl ?_, fun hlt => .inl ?_, fun heq => ?_⟩
  · rw [abs_of_neg (sub_neg.2 hlt)] at hfar
    linarith
  · rw [abs_of_pos (sub_pos.2 hlt)] at hfar
    linarith
  · rw [heq, sub_self, abs_zero] at hfar
    linarith [mul_pos (show (0 : ℚ) < 9 / 2 ^ 55 by norm_num) (heq ▸ hv)]

section Close

variable {p n : ℕ} {k f : ℤ} (hlow : -150 ≤ f) (hhigh : f ≤ 103) (hn' : n < 2 ^ 25)

include hn'

/-- A decimal that two roundings might carry across a midpoint is below the greatest one. -/
theorem le_of_close {v : ℚ} (hclose : |v - n * 2 ^ f| ≤ 9 / 2 ^ 55 * v) :
    v ≤ 2 ^ 25 * 2 ^ f := by
  obtain ⟨-, habove⟩ := abs_le.1 hclose
  have hmax : (n : ℚ) ≤ 2 ^ 25 - 1 := by
    have hle : n + 1 ≤ 2 ^ 25 := hn'
    have hle : (n : ℚ) + 1 ≤ 2 ^ 25 := by exact_mod_cast hle
    linarith
  have hpos : (0 : ℚ) < 2 ^ f := by positivity
  have hmid := mul_le_mul_of_nonneg_right hmax hpos.le
  linarith

/-- The decimal as a near coincidence of the grid at the exponent of the midpoint. -/
theorem near_of_close {m : ℕ} (hm : 0 < m) (hodd : n % 2 = 1)
    (hne : (m : ℚ) * 10 ^ gridAt f ≠ n * 2 ^ f)
    (hclose : |(m : ℚ) * 10 ^ gridAt f - n * 2 ^ f| ≤ 9 / 2 ^ 55 * (m * 10 ^ gridAt f)) :
    Near (decimalWeight f) (binaryWeight f) ⟨m, n⟩ := by
  have hle := le_of_close hn' hclose
  have hunit := unit_pos f
  have hgap := cast_gap f ⟨m, n⟩
  push_cast at hgap
  refine ⟨Int.natCast_pos.2 hm, ?_, by dsimp only; omega, ?_, ?_⟩
  · have hscaled := mul_le_mul_of_nonneg_right hle hunit.le
    rw [mul_assoc, mul_assoc, ← cast_decimalWeight, ← cast_binaryWeight] at hscaled
    exact_mod_cast hscaled
  · intro hzero
    rw [hzero, Int.cast_zero] at hgap
    have hdiff := (mul_eq_zero.1 hgap.symm).resolve_right hunit.ne'
    exact hne (sub_eq_zero.1 hdiff)
  · have hsmall : |(m : ℚ) * 10 ^ gridAt f - n * 2 ^ f| * unit f
        ≤ 9 / 2 ^ 30 * (binaryWeight f : ℚ) := by
      rw [cast_binaryWeight, ← mul_assoc]
      refine mul_le_mul_of_nonneg_right ?_ hunit.le
      linarith
    have habs : ((|gap (decimalWeight f) (binaryWeight f) ⟨m, n⟩| : ℤ) : ℚ)
        = |(m : ℚ) * 10 ^ gridAt f - n * 2 ^ f| * unit f := by
      rw [Int.cast_abs, hgap, abs_mul, abs_of_pos hunit]
    have hcast : (2 ^ 30 * ((|gap (decimalWeight f) (binaryWeight f) ⟨m, n⟩| : ℤ) : ℚ))
        ≤ 9 * (binaryWeight f : ℚ) := by
      rw [habs]
      linarith
    exact_mod_cast hcast

include hlow hhigh

omit hn' in
/-- A near coincidence has no digit to spare, and its scaled word keeps its side. -/
theorem keeps_of_near {m : ℕ} (hnear : Near (decimalWeight f) (binaryWeight f) ⟨m, n⟩) :
    m % 10 ≠ 0 ∧ ∀ y c, scaleByPower (Float.ofNat m) (gridAt f) = .ok y →
      Normal .positive (view y) c → Keeps n f (m * 10 ^ gridAt f) c := by
  have hdecimal : 0 < decimalWeight f := by
    unfold decimalWeight
    positivity
  have hbinary : 0 < binaryWeight f := by
    unfold binaryWeight
    positivity
  obtain ⟨i, hi⟩ := exists_index hlow hhigh
  have hall := coincidencesKeep_of_lt i
  rw [hi] at hall
  have hkeep := List.all_eq_true.1 hall _ (hnear.mem_nearCandidates hdecimal hbinary)
  simp only [hnear, decide_true, Bool.not_true, Bool.false_or, Bool.and_eq_true,
    decide_eq_true_eq] at hkeep
  obtain ⟨hdigit, hscaled⟩ := hkeep
  refine ⟨by omega, fun y c hy hc => ?_⟩
  unfold scaledKeeps at hscaled
  dsimp only at hscaled
  rw [Int.toNat_natCast, hy] at hscaled
  dsimp only at hscaled
  generalize view y = u at hc hscaled
  obtain ⟨hm, -, -, -⟩ := hc
  have hscaled := of_decide_eq_true hscaled
  rwa [Int.toNat_natCast, Int.cast_natCast] at hscaled

end Close

/-- Scaling a word carries it across no midpoint between two floats, if a step of the decimal
grid reaches from the decimal beyond the float next to the midpoint. -/
theorem exists_scaled_keeps {p n : ℕ} {k f : ℤ} (hp : 0 < p) (hlt : p < 2 ^ 29) (hk : -46 ≤ k)
    (hk' : k ≤ 38) (hlow : -150 ≤ f) (hhigh : f ≤ 103) (hodd : n % 2 = 1) (hn : n < 2 ^ 25)
    (hstep : (2 : ℚ) ^ f ≤ |(p : ℚ) * 10 ^ k - n * 2 ^ f| + 10 ^ k) :
    ∃ y c, scaleByPower (Float.ofNat p) k = .ok y ∧ Normal .positive (view y) c ∧
      Keeps n f (p * 10 ^ k) c := by
  obtain ⟨y, c, hy, hc, hwithin, hexact⟩ :=
    exists_scaleByPower_within hp (by omega) (j := k) (by omega) (by omega)
  refine ⟨y, c, hy, hc, ?_⟩
  by_cases hfar : 9 / 2 ^ 55 * ((p : ℚ) * 10 ^ k) < |(p : ℚ) * 10 ^ k - n * 2 ^ f|
  · exact keeps_of_far (by positivity) hwithin hfar
  by_cases hon : (p : ℚ) * 10 ^ k = n * 2 ^ f
  · exact keeps_of_on hp hlt (by omega) hn hon hexact
  have hclose := not_lt.1 hfar
  have hle := le_of_close hn hclose
  -- The decimal is written no finer than the grid at the exponent of the midpoint.
  have hgrid : gridAt f ≤ k := gridAt_le hlow hhigh (by linarith)
  obtain ⟨i, hi⟩ := Int.eq_ofNat_of_zero_le (sub_nonneg.2 hgrid)
  have hvalue : ((p * 10 ^ i : ℕ) : ℚ) * 10 ^ gridAt f = p * 10 ^ k := by
    push_cast
    rw [mul_assoc, ← zpow_natCast, ← zpow_add₀ (by norm_num)]
    congr 2
    omega
  have hnear : Near (decimalWeight f) (binaryWeight f) ⟨(p * 10 ^ i : ℕ), n⟩ := by
    apply near_of_close hn (Nat.mul_pos hp (Nat.pow_pos (by decide))) hodd
    · rwa [hvalue]
    · rwa [hvalue]
  obtain ⟨hdigit, hkeep⟩ := keeps_of_near hlow hhigh hnear
  cases i with
  | succ i =>
    rw [Nat.pow_succ, ← Nat.mul_assoc, Nat.mul_mod_left] at hdigit
    contradiction
  | zero =>
    obtain rfl : k = gridAt f := by omega
    rw [Nat.pow_zero, Nat.mul_one] at hkeep
    exact hkeep y c hy hc

end LineArt.Json
