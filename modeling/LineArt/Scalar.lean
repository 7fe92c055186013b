/-!
# Scalars

The numbers a drawing is laid out in.  Drawings run over 32-bit floats, but
nothing in the geometry depends on that: points, bounds, cursors and runs are
written over any `Scalar`, so a law of exact arithmetic can be stated for the
very same definitions over the rationals.

`least` and `greatest` choose by `<` alone and answer with the second argument
when `<` does not hold.  Over floats this decides which zero is kept, and makes
a bound that is not a number give way to the point it is compared with.
-/

namespace LineArt

/-- A number type that positions, steps and extents can be measured in. -/
class Scalar (α : Type) extends Add α, Sub α, Mul α, Neg α, LT α where
  /-- The coordinate of the origin. -/
  zero : α
  /-- The length of a unit move. -/
  one : α
  /-- The weight that takes a sum of two corners to their midpoint. -/
  half : α
  /-- The scalar nearest to a repeat count. -/
  ofCount : UInt32 → α
  decidableLT : DecidableRel (fun a b : α => a < b)

namespace Scalar

variable {α : Type} [Scalar α]

instance (a b : α) : Decidable (a < b) := decidableLT a b

/-- The first of two scalars if it is below the second, else the second. -/
def least (a b : α) : α := if a < b then a else b

/-- The first of two scalars if it is above the second, else the second. -/
def greatest (a b : α) : α := if b < a then a else b

theorem least_of_lt {a b : α} (h : a < b) : least a b = a := if_pos h

theorem least_of_not_lt {a b : α} (h : ¬ a < b) : least a b = b := if_neg h

theorem greatest_of_lt {a b : α} (h : b < a) : greatest a b = a := if_pos h

theorem greatest_of_not_lt {a b : α} (h : ¬ b < a) : greatest a b = b := if_neg h

theorem least_eq_or (a b : α) : least a b = a ∨ least a b = b := by
  unfold least
  split
  · exact Or.inl rfl
  · exact Or.inr rfl

theorem greatest_eq_or (a b : α) : greatest a b = a ∨ greatest a b = b := by
  unfold greatest
  split
  · exact Or.inl rfl
  · exact Or.inr rfl

end Scalar

/-- Drawings run over 32-bit floats, rounded after every operation. -/
instance : Scalar Float32 where
  zero := Float32.ofBits 0x00000000
  one := Float32.ofBits 0x3F800000
  half := Float32.ofBits 0x3F000000
  ofCount := UInt32.toFloat32
  decidableLT := fun a b => Float32.decLt a b

end LineArt
