import LineArt.Bounds
import LineArt.Proofs.Binary32.Sign

/-!
# Signed scalars

All that mirrors and turns need to know of a scalar type: negation passes through
sums, products and comparisons, up to the sign of zero.
-/

namespace LineArt

/-- A scalar type with a notion of being one number, under which negation is linear. -/
class SignedScalar (α : Type) extends Scalar α where
  Alike : α → α → Prop
  alike_refl (a : α) : Alike a a
  alike_symm {a b : α} : Alike a b → Alike b a
  alike_trans {a b c : α} : Alike a b → Alike b c → Alike a c
  alike_add {a b c d : α} : Alike a b → Alike c d → Alike (a + c) (b + d)
  alike_mul {a b c d : α} : Alike a b → Alike c d → Alike (a * c) (b * d)
  alike_neg {a b : α} : Alike a b → Alike (-a) (-b)
  lt_of_alike {a b c d : α} : Alike a b → Alike c d → a < c → b < d
  neg_zero : Alike (-Scalar.zero) Scalar.zero
  neg_neg (a : α) : Alike (- -a) a
  neg_add (a b : α) : Alike (-(a + b)) (-a + -b)
  neg_mul (a b : α) : Alike (-a * b) (-(a * b))
  neg_lt_neg_iff {a b : α} : -a < -b ↔ b < a

instance : SignedScalar Float32 where
  Alike := Binary32.Alike
  alike_refl := Binary32.Alike.refl
  alike_symm := Binary32.Alike.symm
  alike_trans := Binary32.Alike.trans
  alike_add := Binary32.Alike.add
  alike_mul := Binary32.Alike.mul
  alike_neg := Binary32.Alike.neg
  lt_of_alike := Binary32.Alike.lt
  neg_zero := .inl (by decide +kernel)
  neg_neg := Binary32.alike_neg_neg
  neg_add := Binary32.alike_neg_add
  neg_mul := Binary32.alike_neg_mul
  neg_lt_neg_iff := Binary32.neg_lt_neg_iff

namespace SignedScalar

variable {α : Type} [SignedScalar α] {a b c d : α}

theorem lt_congr (hab : Alike a b) (hcd : Alike c d) : a < c ↔ b < d :=
  ⟨lt_of_alike hab hcd, lt_of_alike (alike_symm hab) (alike_symm hcd)⟩

theorem alike_least (hab : Alike a b) (hcd : Alike c d) :
    Alike (Scalar.least a c) (Scalar.least b d) := by
  by_cases h : a < c
  · rw [Scalar.least_of_lt h, Scalar.least_of_lt ((lt_congr hab hcd).1 h)]
    exact hab
  · rw [Scalar.least_of_not_lt h, Scalar.least_of_not_lt (mt (lt_congr hab hcd).2 h)]
    exact hcd

theorem alike_greatest (hab : Alike a b) (hcd : Alike c d) :
    Alike (Scalar.greatest a c) (Scalar.greatest b d) := by
  by_cases h : c < a
  · rw [Scalar.greatest_of_lt h, Scalar.greatest_of_lt ((lt_congr hcd hab).1 h)]
    exact hab
  · rw [Scalar.greatest_of_not_lt h, Scalar.greatest_of_not_lt (mt (lt_congr hcd hab).2 h)]
    exact hcd

/-! ### Extrema under negation -/

theorem least_neg (a b : α) : Scalar.least (-a) (-b) = -Scalar.greatest a b := by
  by_cases h : b < a
  · rw [Scalar.greatest_of_lt h, Scalar.least_of_lt (neg_lt_neg_iff.2 h)]
  · rw [Scalar.greatest_of_not_lt h, Scalar.least_of_not_lt (mt neg_lt_neg_iff.1 h)]

theorem greatest_neg (a b : α) : Scalar.greatest (-a) (-b) = -Scalar.least a b := by
  by_cases h : a < b
  · rw [Scalar.least_of_lt h, Scalar.greatest_of_lt (neg_lt_neg_iff.2 h)]
  · rw [Scalar.least_of_not_lt h, Scalar.greatest_of_not_lt (mt neg_lt_neg_iff.1 h)]

end SignedScalar

/-! ### Points and boxes -/

section Alike

variable {α : Type} [SignedScalar α]

open SignedScalar

structure Point.Alike (p q : Point α) : Prop where
  x : SignedScalar.Alike p.x q.x
  y : SignedScalar.Alike p.y q.y

structure Bounds.Alike (b c : Bounds α) : Prop where
  min : b.min.Alike c.min
  max : b.max.Alike c.max

variable {p p' q q' r : Point α} {b c : Bounds α}

theorem Point.Alike.refl (p : Point α) : p.Alike p := ⟨alike_refl p.x, alike_refl p.y⟩

theorem Point.Alike.trans (h : p.Alike q) (h' : q.Alike r) : p.Alike r :=
  ⟨alike_trans h.x h'.x, alike_trans h.y h'.y⟩

theorem Point.Alike.symm (h : p.Alike q) : q.Alike p := ⟨alike_symm h.x, alike_symm h.y⟩

theorem Point.Alike.add (hp : p.Alike p') (hq : q.Alike q') : (p + q).Alike (p' + q') :=
  ⟨alike_add hp.x hq.x, alike_add hp.y hq.y⟩

theorem Point.Alike.mul (hp : p.Alike p') (hq : q.Alike q') : (p * q).Alike (p' * q') :=
  ⟨alike_mul hp.x hq.x, alike_mul hp.y hq.y⟩

theorem Point.Alike.scale (hp : p.Alike p') (k : α) : (p.scale k).Alike (p'.scale k) :=
  ⟨alike_mul hp.x (alike_refl k), alike_mul hp.y (alike_refl k)⟩

theorem Bounds.alike_ofPoint (h : p.Alike q) : (Bounds.ofPoint p).Alike (.ofPoint q) := ⟨h, h⟩

theorem Bounds.Alike.insert (hb : b.Alike c) (h : p.Alike q) :
    (b.insert p).Alike (c.insert q) where
  min := ⟨alike_least hb.min.x h.x, alike_least hb.min.y h.y⟩
  max := ⟨alike_greatest hb.max.x h.x, alike_greatest hb.max.y h.y⟩

end Alike

end LineArt
