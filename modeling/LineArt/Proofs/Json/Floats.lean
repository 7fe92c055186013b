import LineArt.Json.Value
import LineArt.Proofs.Binary64.Magnitude
import LineArt.Proofs.Decimal.Shortest
import LineArt.Proofs.Json.Numerals

/-!
# Numbers read back

The numeral of a finite float, and that of a word of 64 bits, are numerals of JSON, and
reading them never leaves the range of 64-bit floats.
-/

namespace LineArt

open Json (exponentValue)

/-! ### Laying out -/

namespace Decimal.Layout

open Decimal

variable (layout : Layout) (negative : Bool)

/-- The places before the point, those of the exponent counted in. -/
def places (n : Numeral) : Int := n.whole.length + exponentValue n.exponent

theorem exponentValue_digits (e : Int) :
    exponentValue (some (decide (e < 0), digits e.natAbs)) = e := by
  by_cases h : e < 0
  · rw [decide_eq_true h, exponentValue, value_digits]
    omega
  · rw [decide_eq_false h, exponentValue, value_digits]
    omega

theorem plain_proper {ds : List Digit} (hne : ds ≠ []) (h : NoLeadingZero ds) (point : Int) :
    (layout.plain negative ds point).Proper where
  exponent sign es h := by contradiction
  whole := by
    unfold plain
    dsimp only
    split
    · exact isWhole_singleton 0
    · rename_i hwhole
      cases hp : point.toNat with
      | zero =>
        have hpad : (point - ds.length).toNat = 0 := by omega
        simp [hp, hpad] at hwhole
      | succ p =>
        cases ds with
        | nil => contradiction
        | cons d ds =>
          rw [List.take_succ_cons, List.cons_append]
          exact isWhole_of_noLeadingZero (by simp) h

theorem places_plain_le (ds : List Digit) (point : Int) :
    places (layout.plain negative ds point) ≤ max point 1 := by
  unfold places plain
  dsimp only [exponentValue]
  split
  · simp
  · simp only [List.length_append, List.length_take, List.length_replicate]
    omega

theorem scientific_proper {ds : List Digit} (hne : ds ≠ []) (e : Int) :
    (scientific negative ds e).Proper where
  whole := by
    cases ds with
    | nil => contradiction
    | cons d ds => exact isWhole_singleton d
  exponent sign es h := by
    obtain ⟨-, rfl⟩ := Prod.mk.inj (Option.some.inj h)
    exact digits_ne_nil _

theorem places_scientific_le (ds : List Digit) (e : Int) :
    places (scientific negative ds e) ≤ e + 1 := by
  unfold places scientific
  dsimp only
  rw [exponentValue_digits, List.length_take]
  omega

variable {d : Scaled} (h : d.Moderate)

include h

theorem lay_proper : (layout.lay negative d).Proper := by
  have hne := digits_ne_nil d.significand
  unfold lay
  dsimp only
  split
  · exact plain_proper layout negative hne (noLeadingZero_digits h.pos) _
  · exact scientific_proper negative hne _

theorem places_lay_le : places (layout.lay negative d) ≤ 39 := by
  have htop := h.length_add_exponent_le
  unfold lay
  dsimp only
  split
  · have hle := places_plain_le layout negative (digits d.significand)
      ((digits d.significand).length + d.exponent)
    omega
  · have hle := places_scientific_le negative (digits d.significand)
      ((digits d.significand).length + d.exponent - 1)
    omega

end Decimal.Layout

open Decimal.Layout

/-- A finite float is laid out as a numeral of JSON. -/
theorem exists_numeral? (layout : Decimal.Layout) {x : Float32} (h : x.isFinite) :
    ∃ n, layout.numeral? x = some n ∧ n.Proper ∧ places n ≤ 39 := by
  have hfinite : (Binary32.view x).isFinite = true := h
  unfold Decimal.Layout.numeral?
  split
  · rename_i hx
    rw [show Binary32.view x = .notANumber from hx] at hfinite
    contradiction
  · rename_i s hx
    rw [show Binary32.view x = .infinity s from hx] at hfinite
    contradiction
  · rename_i s hx
    have hle := places_plain_le layout (isNegative s) [0] 1
    refine ⟨_, rfl, ?_, hle.trans (by decide)⟩
    exact ⟨Decimal.isWhole_singleton 0, fun sign ds h => by contradiction⟩
  · rename_i s m e hm hx
    obtain ⟨hmantissa, hexponent⟩ := Binary32.finite_bounds hx
    have hmoderate : ((binary32 m e).shortest layout.tie).Moderate :=
      Decimal.Binary.shortest_moderate hm hmantissa hexponent
    exact ⟨_, rfl, lay_proper layout _ hmoderate, places_lay_le layout _ hmoderate⟩

theorem numeral?_eq_none (layout : Decimal.Layout) {x : Float32} (h : x.isFinite = false) :
    layout.numeral? x = none := by
  have hfinite : (Binary32.view x).isFinite = false := h
  unfold Decimal.Layout.numeral?
  split
  · rfl
  · rfl
  · rename_i s hx
    rw [show Binary32.view x = .zero s from hx] at hfinite
    contradiction
  · rename_i s m e hm hx
    rw [show Binary32.view x = .finite s m e hm from hx] at hfinite
    contradiction

namespace Json

/-! ### Taking digits up -/

theorem le_valueFrom (word : Nat) (ds : List Digit) : word ≤ Decimal.valueFrom word ds := by
  induction ds generalizing word with
  | nil => exact Nat.le_refl word
  | cons d ds ih =>
    have hle := ih (word * 10 + d.val)
    show word ≤ Decimal.valueFrom (word * 10 + d.val) ds
    omega

theorem takeWord_of_lt {word : Nat} {ds : List Digit} (h : Decimal.valueFrom word ds < wordBound) :
    takeWord word ds = (Decimal.valueFrom word ds, []) := by
  induction ds generalizing word with
  | nil => rfl
  | cons d ds ih =>
    have hle := le_valueFrom (word * 10 + d.val) ds
    have hrest : Decimal.valueFrom (word * 10 + d.val) ds < wordBound := h
    rw [takeWord, if_pos (by omega)]
    exact ih hrest

theorem takeWord_bounds {word : Nat} (ds : List Digit) (h : word < wordBound) :
    (takeWord word ds).1 < wordBound ∧ (takeWord word ds).2.length ≤ ds.length := by
  induction ds generalizing word with
  | nil => exact ⟨h, Nat.le_refl 0⟩
  | cons d ds ih =>
    unfold takeWord
    split
    · rename_i hfits
      obtain ⟨hword, hlength⟩ := ih hfits
      exact ⟨hword, Nat.le_succ_of_le hlength⟩
    · exact ⟨h, Nat.le_refl _⟩

/-! ### Scaling -/

theorem exists_multiplyByPower {word k : Nat} (hword : word < wordBound) (hk : k ≤ 200) :
    ∃ x, multiplyByPower (Float.ofNat word) k = .ok x := by
  have hone : (1 : Nat) < 2 ^ 64 := by decide
  have hleft : Binary64.Below 67 (Binary64.view (Float.ofNat word)) :=
    Binary64.view_ofScientific_below (k := 0) hword (by decide)
  have hright : Binary64.Below (67 + 4 * k) (Binary64.view (powerOfTen k)) :=
    Binary64.view_ofScientific_below hone hk
  have hfinite := Binary64.isInf_eq_false (Binary64.view_mul_below hleft hright (by omega))
  have hgreatest : k ≤ greatestPower := hk.trans (by decide)
  refine ⟨Float.ofNat word * powerOfTen k, ?_⟩
  simp [multiplyByPower, hgreatest, hfinite]

theorem exists_scaleByPower {word : Nat} {e : Int} (hword : word < wordBound) (he : e ≤ 200) :
    ∃ x, scaleByPower (Float.ofNat word) e = .ok x := by
  unfold scaleByPower
  split
  · exact exists_multiplyByPower hword (by omega)
  · exact ⟨_, rfl⟩

/-- A numeral with at most two hundred places before the point is a number. -/
theorem exists_numberOf {n : Numeral} (h : places n ≤ 200) : ∃ x, numberOf n = .ok x := by
  have hzero : 0 < wordBound := by decide
  obtain ⟨hword, hdropped⟩ := takeWord_bounds n.whole hzero
  obtain ⟨hword', hunused⟩ := takeWord_bounds n.fraction hword
  unfold places at h
  unfold numberOf
  dsimp only
  split
  · exact ⟨_, rfl⟩
  · split
    · exact ⟨_, rfl⟩
    · obtain ⟨x, hx⟩ := exists_scaleByPower (e := (takeWord 0 n.whole).2.length
        - ((n.fraction.length : Int) - (takeWord (takeWord 0 n.whole).1 n.fraction).2.length)
        + exponentValue n.exponent) hword' (by omega)
      rw [hx]
      exact ⟨_, rfl⟩

theorem numberOf_ofNat {n : Nat} (h : n < wordBound) : numberOf (.ofNat n) = .ok (.natural n) := by
  have hvalue : Decimal.valueFrom 0 (Decimal.digits n) = n := Decimal.value_digits n
  have hword : takeWord 0 (Decimal.digits n) = (n, []) := by
    rw [takeWord_of_lt (by rw [hvalue]; exact h), hvalue]
  simp [numberOf, Numeral.ofNat, Numeral.isInteger, hword]

end Json

end LineArt
