import LineArt.Decimal.Shortest

/-!
# Layouts

How the shortest decimal of a 32-bit float is laid out as a numeral.  A layout
decides ties, where positional notation ends, and whether a whole number keeps
a zero after the point.
-/

namespace LineArt.Decimal

structure Layout where
  /-- Which of two equally near shortest decimals is written. -/
  tie : Tie
  /-- Whether a number with this exponent of its leading digit is written without an exponent. -/
  positional : Int → Bool
  /-- Whether a whole number written without an exponent keeps one zero after the point. -/
  pointed : Bool

namespace Layout

/-- The digits after the point, or the zero that a whole number keeps. -/
def fraction (layout : Layout) (ds : List Digit) : List Digit :=
  if layout.pointed && ds.isEmpty then [0] else ds

/-- A number without an exponent: its digits are `ds`, of which `point` stand before the point. -/
def plain (layout : Layout) (negative : Bool) (ds : List Digit) (point : Int) : Numeral :=
  let whole := ds.take point.toNat ++ List.replicate (point - ds.length).toNat 0
  { negative
    whole := if whole.isEmpty then [0] else whole
    fraction := layout.fraction (List.replicate (-point).toNat 0 ++ ds.drop point.toNat)
    exponent := none }

/-- A number with an exponent: one digit before the point, the rest after it. -/
def scientific (negative : Bool) (ds : List Digit) (exponent : Int) : Numeral :=
  { negative
    whole := ds.take 1
    fraction := ds.drop 1
    exponent := some (exponent < 0, digits exponent.natAbs) }

def lay (layout : Layout) (negative : Bool) (d : Scaled) : Numeral :=
  let ds := digits d.significand
  let point := ds.length + d.exponent
  if layout.positional (point - 1) then layout.plain negative ds point
  else scientific negative ds (point - 1)

end Layout

end LineArt.Decimal

namespace LineArt

open Float.Model (UnpackedFloat)

def isNegative : UnpackedFloat.Sign → Bool
  | .negative => true
  | .positive => false

def binary32 (mantissa : Nat) (exponent : Int) : Decimal.Binary :=
  ⟨mantissa, exponent, mantissa = 0x800000 && -149 < exponent⟩

/-- The numeral of a finite float in a layout; none for infinities and for what is no number. -/
def Decimal.Layout.numeral? (layout : Decimal.Layout) (x : Float32) : Option Numeral :=
  match x.toModel.unpack with
  | .notANumber => none
  | .infinity _ => none
  | .zero s => some (layout.plain (isNegative s) [0] 1)
  | .finite s mantissa exponent _ =>
    some (layout.lay (isNegative s) ((binary32 mantissa exponent).shortest layout.tie))

end LineArt
