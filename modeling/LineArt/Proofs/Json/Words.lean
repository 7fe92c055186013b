import LineArt.Proofs.Decimal.Interval
import LineArt.Proofs.Json.Floats

/-!
# Numerals as words

The word and the power of ten that a numeral is read as.  A laid-out decimal is read as its
own significand and exponent, except that a whole number written without an exponent
ends in the zero after the point: there all places are in the word, and the power is the tenth.
-/

namespace LineArt

open Decimal (Layout Scaled digits digits_ne_nil lt_pow_length_digits value value_digits valueFrom
  valueFrom_append)
open Decimal.Layout (exponentValue_digits scientific)
open Json (exponentValue)

/-- The number a numeral stands for, its sign apart. -/
def Numeral.scaled (n : Numeral) : Scaled :=
  ⟨value (n.whole ++ n.fraction), exponentValue n.exponent - n.fraction.length⟩

namespace Decimal

/-- The decimal with all its places and one more in the significand. -/
def Scaled.padded (d : Scaled) : Scaled := ⟨d.significand * 10 ^ (d.exponent.toNat + 1), -1⟩

theorem valueFrom_zeros (n k : ℕ) : valueFrom n (List.replicate k 0) = n * 10 ^ k := by
  induction k generalizing n with
  | zero => simp [valueFrom]
  | succ k ih =>
    rw [List.replicate_succ]
    show valueFrom (n * 10 + 0) _ = _
    rw [ih, Nat.pow_succ']
    ring

theorem value_zeros_append (k : ℕ) (ds : List Digit) :
    value (List.replicate k 0 ++ ds) = value ds := by
  unfold value
  rw [valueFrom_append, valueFrom_zeros, Nat.zero_mul]

namespace Layout

variable (layout : Layout) (negative : Bool) {ds : List Digit} {point : ℤ}

theorem scaled_scientific (hne : ds ≠ []) (e : ℤ) :
    (scientific negative ds e).scaled = ⟨value ds, e + 1 - ds.length⟩ := by
  have hlen := List.length_pos_iff.2 hne
  unfold scientific Numeral.scaled
  dsimp only
  rw [List.take_append_drop, exponentValue_digits, List.length_drop]
  congr 1
  omega

/-- The point stands among the digits or in front of them. -/
theorem scaled_plain_of_lt (hne : ds ≠ []) (h : point < ds.length) :
    (layout.plain negative ds point).scaled = ⟨value ds, point - ds.length⟩ := by
  have hlen := List.length_pos_iff.2 hne
  have hpad : (point - ds.length).toNat = 0 := by omega
  have hfraction : layout.fraction (List.replicate (-point).toNat 0 ++ ds.drop point.toNat)
      = List.replicate (-point).toNat 0 ++ ds.drop point.toNat := by
    have hne : ds.drop point.toNat ≠ [] := by
      rw [Ne, List.drop_eq_nil_iff]
      omega
    simp [fraction, hne]
  unfold plain Numeral.scaled
  dsimp only [exponentValue]
  rw [hfraction, hpad, List.replicate_zero, List.append_nil, List.length_append,
    List.length_replicate, List.length_drop]
  by_cases hpoint : 0 < point
  · have hneg : (-point).toNat = 0 := by omega
    have hne : ds.take point.toNat ≠ [] := by
      rw [Ne, List.take_eq_nil_iff]
      rintro (hzero | hnil)
      · omega
      · exact hne hnil
    rw [if_neg (by simpa using hne), hneg, List.replicate_zero, List.nil_append,
      List.take_append_drop]
    congr 1
    omega
  · have hzero : point.toNat = 0 := by omega
    rw [hzero, List.take_zero, List.drop_zero, List.isEmpty_nil, if_pos rfl]
    congr 1
    · exact value_zeros_append (_ + 1) ds
    · omega

/-- The point stands behind the last digit or further on; behind the point stands what the
layout keeps there. -/
theorem scaled_plain_of_le (hne : ds ≠ []) (h : (ds.length : ℤ) ≤ point) :
    (layout.plain negative ds point).scaled
      = ⟨valueFrom (value ds * 10 ^ (point - ds.length).toNat) (layout.fraction []),
          -(layout.fraction []).length⟩ := by
  have hneg : (-point).toNat = 0 := by omega
  have htake : ds.take point.toNat = ds := List.take_of_length_le (by omega)
  have hdrop : ds.drop point.toNat = [] := List.drop_eq_nil_of_le (by omega)
  have hwhole : (ds ++ List.replicate (point - ds.length).toNat 0).isEmpty = false := by
    cases ds with
    | nil => contradiction
    | cons d ds => rfl
  unfold plain Numeral.scaled
  dsimp only [exponentValue]
  rw [htake, hdrop, hneg, hwhole, if_neg Bool.false_ne_true, List.replicate_zero, List.append_nil,
    zero_sub]
  unfold value
  rw [valueFrom_append, valueFrom_append, valueFrom_zeros]

theorem scaled_plain_of_pointed (hlayout : layout.pointed = true) (hne : ds ≠ [])
    (h : (ds.length : ℤ) ≤ point) :
    (layout.plain negative ds point).scaled
      = ⟨value ds * 10 ^ ((point - ds.length).toNat + 1), -1⟩ := by
  have hfraction : layout.fraction [] = [0] := by
    simp [fraction, hlayout]
  rw [layout.scaled_plain_of_le negative hne h, hfraction, Nat.pow_succ, ← Nat.mul_assoc]
  rfl

/-- A layout that keeps no zero after the point writes whole numbers as they are. -/
theorem scaled_plain_of_not_pointed (hlayout : layout.pointed = false) (hne : ds ≠ [])
    (h : (ds.length : ℤ) ≤ point) :
    (layout.plain negative ds point).scaled
      = ⟨value ds * 10 ^ (point - ds.length).toNat, 0⟩ := by
  have hfraction : layout.fraction [] = [] := by
    simp [fraction, hlayout]
  rw [layout.scaled_plain_of_le negative hne h, hfraction]
  rfl

theorem isInteger_plain (hlayout : layout.pointed = true) :
    (layout.plain negative ds point).isInteger = false := by
  have hne : layout.fraction (List.replicate (-point).toNat 0 ++ ds.drop point.toNat) ≠ [] := by
    unfold fraction
    split
    · simp
    · rename_i hempty
      rw [hlayout, Bool.true_and] at hempty
      simpa using hempty
  simp only [Numeral.isInteger, plain, Bool.and_eq_false_iff]
  exact .inl (by simpa using hne)

theorem isInteger_lay (hlayout : layout.pointed = true) (d : Scaled) :
    (layout.lay negative d).isInteger = false := by
  unfold lay
  dsimp only
  split
  · exact layout.isInteger_plain negative hlayout
  · exact Bool.and_false _

theorem negative_lay (d : Scaled) : (layout.lay negative d).negative = negative := by
  unfold lay
  dsimp only
  split <;> rfl

/-- A laid-out decimal is read as its own parts, or padded as it was written. -/
theorem scaled_lay (hlayout : layout.pointed = true) (d : Scaled) :
    (layout.lay negative d).scaled = d ∨
      (0 ≤ d.exponent ∧ layout.positional ((digits d.significand).length + d.exponent - 1) = true
        ∧ (layout.lay negative d).scaled = d.padded) := by
  have hne := digits_ne_nil d.significand
  unfold lay
  dsimp only
  split
  · rename_i hplain
    rcases lt_or_ge d.exponent 0 with hneg | hnonneg
    · left
      rw [layout.scaled_plain_of_lt negative hne (by omega), value_digits, add_sub_cancel_left]
    · right
      refine ⟨hnonneg, hplain, ?_⟩
      rw [layout.scaled_plain_of_pointed negative hlayout hne (by omega), value_digits,
        add_sub_cancel_left]
      rfl
  · left
    rw [scaled_scientific negative hne, value_digits, sub_add_cancel, add_sub_cancel_left]

end Layout

end Decimal

namespace Json

/-- A numeral that is no integer is read as a float, found from its word. -/
theorem numberOf_of_lt {n : Numeral} (hint : n.isInteger = false)
    (hlt : n.scaled.significand < wordBound) :
    numberOf n = (scaleByPower (Float.ofNat n.scaled.significand) n.scaled.exponent).map
      fun x => .float (if n.negative then -x else x) := by
  have hvalue : n.scaled.significand = valueFrom (value n.whole) n.fraction :=
    valueFrom_append 0 n.whole n.fraction
  have hexponent : n.scaled.exponent = exponentValue n.exponent - n.fraction.length := rfl
  rw [hvalue] at hlt ⊢
  have hwhole := takeWord_of_lt ((le_valueFrom (value n.whole) n.fraction).trans_lt hlt)
  have hfraction := takeWord_of_lt hlt
  unfold numberOf
  dsimp only
  rw [show valueFrom 0 n.whole = value n.whole from rfl] at hwhole
  rw [hwhole, hfraction, hint, hexponent]
  dsimp only
  rw [Bool.false_and, Bool.false_and, Bool.false_and, if_neg Bool.false_ne_true,
    if_neg (by simp)]
  congr 2
  simp
  omega

end Json

end LineArt
