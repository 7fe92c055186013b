import LineArt.Proofs.Binary32.Decimals
import LineArt.Proofs.Json.Reread
import LineArt.Svg

/-!
# Numbers of a path

A float in a path is written without an exponent and read as an argument is: its decimal is
rounded once.  The decimal lies in the interval of the float, so the float is read back, and
so are the zeros, the infinities and what is no number.
-/

namespace LineArt

open Decimal (EndsDigits Scaled digits digits_ne_nil readDigits_append value)

/-! ### Numerals without an exponent -/

namespace Decimal

theorem endsDigits_nil : EndsDigits [] := by
  intro c hc
  contradiction

theorem readFraction_text (ds : List Digit) :
    readFraction (Numeral.fractionText ds) = (ds, []) := by
  cases ds with
  | nil => rfl
  | cons d ds =>
    have hread := readDigits_append (d :: ds) endsDigits_nil
    rw [List.append_nil] at hread
    exact hread

variable {n : Numeral}

theorem readMagnitude?_text (hwhole : n.whole ≠ []) :
    readMagnitude? (n.whole.map Digit.toChar ++ Numeral.fractionText n.fraction)
      = some (nearest32 (value (n.whole ++ n.fraction)) (0 - n.fraction.length)) := by
  have hends : EndsDigits (Numeral.fractionText n.fraction) := by
    have hends := Json.endsDigits_fractionText n.fraction endsDigits_nil
    rwa [List.append_nil] at hends
  have hnonempty : (n.whole.isEmpty && n.fraction.isEmpty) = false := by
    simp [hwhole]
  unfold readMagnitude?
  rw [readDigits_append n.whole hends]
  dsimp only
  rw [readFraction_text]
  dsimp only
  rw [hnonempty]
  rfl

theorem readSign_text (hwhole : n.whole ≠ []) (rest : List Char) :
    readSign ((if n.negative then ['-'] else []) ++ (n.whole.map Digit.toChar ++ rest))
      = (n.negative, n.whole.map Digit.toChar ++ rest) := by
  cases hn : n.negative with
  | true => rfl
  | false =>
    cases hw : n.whole with
    | nil => exact absurd hw hwhole
    | cons d ds =>
      have hminus : d.toChar ≠ '-' := toChar_ne (by decide) d
      have hplus : d.toChar ≠ '+' := toChar_ne (by decide) d
      simp [readSign, hminus, hplus]

/-- A numeral without an exponent is read as its decimal, rounded once. -/
theorem readFloat?_text (hexponent : n.exponent = none) (hwhole : n.whole ≠ []) :
    readFloat? n.text
      = some (signed32 n.negative (nearest32 n.scaled.significand n.scaled.exponent)) := by
  have hscaled : n.scaled = ⟨value (n.whole ++ n.fraction), 0 - n.fraction.length⟩ := by
    unfold Numeral.scaled
    rw [hexponent]
    rfl
  unfold readFloat? Numeral.text
  rw [hexponent, Numeral.exponentText, List.append_nil, List.append_assoc, readSign_text hwhole]
  dsimp only
  rw [readMagnitude?_text hwhole, hscaled]
  rfl

end Decimal

/-! ### The decimal of a float -/

namespace Svg

variable (negative : Bool) (d : Scaled)

theorem lay_eq_plain :
    floatLayout.lay negative d
      = floatLayout.plain negative (digits d.significand)
          ((digits d.significand).length + d.exponent) := rfl

theorem scaled_lay_of_neg (h : d.exponent < 0) : (floatLayout.lay negative d).scaled = d := by
  rw [lay_eq_plain, floatLayout.scaled_plain_of_lt negative (digits_ne_nil _) (by omega),
    Decimal.value_digits, add_sub_cancel_left]

theorem scaled_lay_of_nonneg (h : 0 ≤ d.exponent) :
    (floatLayout.lay negative d).scaled = ⟨d.significand * 10 ^ d.exponent.toNat, 0⟩ := by
  rw [lay_eq_plain,
    floatLayout.scaled_plain_of_not_pointed negative rfl (digits_ne_nil _) (by omega),
    Decimal.value_digits, add_sub_cancel_left]

/-- What is laid out has the value of the decimal. -/
theorem value_lay : (floatLayout.lay negative d).scaled.value = d.value := by
  rcases lt_or_ge d.exponent 0 with hneg | hnonneg
  · rw [scaled_lay_of_neg negative d hneg]
  · rw [scaled_lay_of_nonneg negative d hnonneg, d.value_of_nonneg hnonneg]
    simp [Scaled.value]

theorem significand_lay_pos (h : 0 < d.significand) :
    0 < (floatLayout.lay negative d).scaled.significand := by
  rcases lt_or_ge d.exponent 0 with hneg | hnonneg
  · rwa [scaled_lay_of_neg negative d hneg]
  · rw [scaled_lay_of_nonneg negative d hnonneg]
    exact Nat.mul_pos h (Nat.pow_pos (by decide))

theorem exponent_lay_bounds (h : -46 ≤ d.exponent) :
    -46 ≤ (floatLayout.lay negative d).scaled.exponent ∧
      (floatLayout.lay negative d).scaled.exponent ≤ 0 := by
  rcases lt_or_ge d.exponent 0 with hneg | hnonneg
  · rw [scaled_lay_of_neg negative d hneg]
    omega
  · rw [scaled_lay_of_nonneg negative d hnonneg]
    constructor <;> simp

theorem whole_plain_ne_nil (ds : List Digit) (point : ℤ) :
    (floatLayout.plain negative ds point).whole ≠ [] := by
  unfold Decimal.Layout.plain
  dsimp only
  split
  · simp
  · rename_i h
    simpa using h

/-! ### Reading a float back -/

theorem readFloat?_plain (ds : List Digit) (point : ℤ) :
    Decimal.readFloat? (floatLayout.plain negative ds point).text
      = some (signed32 negative
          (nearest32 (floatLayout.plain negative ds point).scaled.significand
            (floatLayout.plain negative ds point).scaled.exponent)) :=
  Decimal.readFloat?_text rfl (whole_plain_ne_nil negative ds point)

open Binary32 (view ofModel_pack_view) in
/-- The text of a float in a path is read as that float, to the last bit. -/
theorem floatOfText?_floatText (x : Float32) :
    floatOfText? (String.ofList (floatText x)) = some x := by
  unfold floatOfText?
  rw [String.toList_ofList]
  unfold floatText Decimal.Layout.numeral?
  cases hx : x.toModel.unpack with
  | notANumber =>
    rw [← ofModel_pack_view x, show view x = .notANumber from hx]
    rfl
  | infinity s =>
    rw [← ofModel_pack_view x, show view x = .infinity s from hx]
    cases s <;> rfl
  | zero s =>
    rw [← ofModel_pack_view x, show view x = .zero s from hx]
    cases s <;> rfl
  | finite s m e hm =>
    obtain ⟨hmantissa, -⟩ := Binary32.finite_bounds hx
    obtain ⟨hlow, -⟩ := Binary32.finite_canonical hx
    have hpos := Json.shortest_pos hx floatLayout.tie
    have hk := Decimal.Binary.le_exponent_shortest (b := binary32 m e) floatLayout.tie hm hlow
    obtain ⟨hin, -⟩ := Decimal.Binary.shortest_near (b := binary32 m e) floatLayout.tie hm
    dsimp only
    generalize (binary32 m e).shortest floatLayout.tie = d at hpos hk hin ⊢
    have hbounds := exponent_lay_bounds (isNegative s) d hk
    rw [← value_lay (isNegative s) d] at hin
    have hread := readFloat?_plain (isNegative s) (digits d.significand)
      ((digits d.significand).length + d.exponent)
    rw [← lay_eq_plain] at hread
    rw [hread, Binary32.signed32_nearest32 hx (significand_lay_pos (isNegative s) d hpos)
      (by omega) (by omega) hin]

/-! ### The characters of a number -/

/-- The characters that the text of a float may hold. -/
def IsNumberChar (c : Char) : Prop := c.isDigit ∨ c ∈ ['-', '.', 'N', 'a', 'i', 'n', 'f']

instance (c : Char) : Decidable (IsNumberChar c) := inferInstanceAs (Decidable (_ ∨ _))

theorem isNumberChar_toChar (d : Digit) : IsNumberChar d.toChar := by
  revert d
  decide

theorem isNumberChar_digits (ds : List Digit) :
    ∀ c ∈ ds.map Digit.toChar, IsNumberChar c :=
  List.forall_mem_map.2 fun d _ => isNumberChar_toChar d

theorem isNumberChar_text {n : Numeral} (h : n.exponent = none) :
    ∀ c ∈ n.text, IsNumberChar c := by
  have hsign : ∀ c ∈ if n.negative then ['-'] else [], IsNumberChar c := by
    cases n.negative <;> simp [IsNumberChar]
  have hfraction : ∀ c ∈ Numeral.fractionText n.fraction, IsNumberChar c := by
    cases n.fraction with
    | nil => exact List.forall_mem_nil _
    | cons d ds => exact List.forall_mem_cons.2 ⟨by decide, isNumberChar_digits (d :: ds)⟩
  unfold Numeral.text
  rw [h]
  simp only [List.forall_mem_append]
  exact ⟨⟨⟨hsign, isNumberChar_digits _⟩, hfraction⟩, List.forall_mem_nil _⟩

theorem isNumberChar_floatText (x : Float32) : ∀ c ∈ floatText x, IsNumberChar c := by
  unfold floatText
  split
  · rename_i n hn
    apply isNumberChar_text
    unfold Decimal.Layout.numeral? at hn
    split at hn
    · contradiction
    · contradiction
    · exact Option.some.inj hn ▸ rfl
    · exact Option.some.inj hn ▸ rfl
  · unfold extremeText
    repeat' split
    all_goals simp [IsNumberChar]

end Svg

end LineArt
