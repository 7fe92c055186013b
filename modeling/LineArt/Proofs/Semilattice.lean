import LineArt.Proofs.Containment
import LineArt.Proofs.Signed

/-!
# Boxes as a semilattice

A box that takes in points one after the other is the tight box of those points.  So it
depends only on which points they are, not on their order and not on how often one of them
comes, and a point inside it adds nothing.  Boxes are compared as numbers here: which of the
two zeros stands in a corner does depend on the order.
-/

namespace LineArt

/-! ### Points taken in -/

section Ordered

variable {α : Type} [OrderedScalar α] {b c : Bounds α} {p : Point α} {ps qs : List (Point α)}

theorem OrderedScalar.le_least {a x y : α} (hx : a ≤ x) (hy : a ≤ y) : a ≤ Scalar.least x y := by
  rcases Scalar.least_eq_or x y with h | h
  · rwa [h]
  · rwa [h]

theorem OrderedScalar.greatest_le {a x y : α} (hx : x ≤ a) (hy : y ≤ a) :
    Scalar.greatest x y ≤ a := by
  rcases Scalar.greatest_eq_or x y with h | h
  · rwa [h]
  · rwa [h]

theorem Bounds.Tight.insertAll (h : b.Tight ps) (hps : ∀ q ∈ ps, q.IsNumber)
    (hqs : ∀ q ∈ qs, q.IsNumber) : (b.insertAll qs).Tight (ps ++ qs) := by
  induction qs generalizing b ps with
  | nil =>
    rw [List.append_nil]
    exact h
  | cons q qs ih =>
    obtain ⟨hq, hqs⟩ := List.forall_mem_cons.1 hqs
    have hall : ∀ r ∈ ps ++ [q], r.IsNumber :=
      List.forall_mem_append.2 ⟨hps, List.forall_mem_singleton.2 hq⟩
    have hrest := ih (h.insert hps hq) hall hqs
    rwa [List.append_assoc] at hrest

theorem Bounds.tight_insertAll_ofPoint (h : ∀ q ∈ p :: ps, q.IsNumber) :
    ((Bounds.ofPoint p).insertAll ps).Tight (p :: ps) := by
  obtain ⟨hp, hps⟩ := List.forall_mem_cons.1 h
  exact (Bounds.tight_ofPoint hp).insertAll (List.forall_mem_singleton.2 hp) hps

omit [OrderedScalar α] in
/-- The tight box of some points covers that of any among them. -/
theorem Bounds.Tight.covers_of_subset [LE α] (hb : b.Tight ps) (hc : c.Tight qs) (h : ps ⊆ qs) :
    c.Covers b where
  min_x := hc.min_x.2 (List.map_subset Point.x h hb.min_x.1)
  min_y := hc.min_y.2 (List.map_subset Point.y h hb.min_y.1)
  max_x := hc.max_x.2 (List.map_subset Point.x h hb.max_x.1)
  max_y := hc.max_y.2 (List.map_subset Point.y h hb.max_y.1)

theorem Bounds.insert_covers (hmin : b.min.IsNumber) (hmax : b.max.IsNumber) (hp : p.IsNumber) :
    (b.insert p).Covers b where
  min_x := OrderedScalar.least_le_left hmin.1 hp.1
  min_y := OrderedScalar.least_le_left hmin.2 hp.2
  max_x := OrderedScalar.left_le_greatest hmax.1 hp.1
  max_y := OrderedScalar.left_le_greatest hmax.2 hp.2

theorem Bounds.Contains.covers_insert (h : b.Contains p) (hmin : b.min.IsNumber)
    (hmax : b.max.IsNumber) : b.Covers (b.insert p) where
  min_x := OrderedScalar.le_least (OrderedScalar.le_refl hmin.1) h.min_x
  min_y := OrderedScalar.le_least (OrderedScalar.le_refl hmin.2) h.min_y
  max_x := OrderedScalar.greatest_le (OrderedScalar.le_refl hmax.1) h.max_x
  max_y := OrderedScalar.greatest_le (OrderedScalar.le_refl hmax.2) h.max_y

theorem Bounds.rect_covers (hmin : b.min.IsNumber) (hmax : b.max.IsNumber) : b.rect.Covers b where
  min_x := OrderedScalar.least_le_left hmin.1 hmax.1
  min_y := OrderedScalar.least_le_left hmin.2 hmax.2
  max_x := OrderedScalar.right_le_greatest hmin.1 hmax.1
  max_y := OrderedScalar.right_le_greatest hmin.2 hmax.2

theorem Bounds.Ordered.covers_rect (h : b.Ordered) (hmin : b.min.IsNumber)
    (hmax : b.max.IsNumber) : b.Covers b.rect where
  min_x := OrderedScalar.le_least (OrderedScalar.le_refl hmin.1) h.x
  min_y := OrderedScalar.le_least (OrderedScalar.le_refl hmin.2) h.y
  max_x := OrderedScalar.greatest_le h.x (OrderedScalar.le_refl hmax.1)
  max_y := OrderedScalar.greatest_le h.y (OrderedScalar.le_refl hmax.2)

end Ordered

/-! ### Boxes of floats -/

namespace Binary32

variable {x y : Float32}

theorem isNaN_of_le (h : x ≤ y) : x.isNaN = false ∧ y.isNaN = false := by
  rw [le_iff, Float.Model.UnpackedFloat.le, Option.any_eq_true] at h
  obtain ⟨o, ho, -⟩ := h
  exact isNaN_of_compare ho

theorem alike_of_le (h : x ≤ y) (h' : y ≤ x) : Alike x y := by
  obtain ⟨hx, hy⟩ := isNaN_of_le h
  rw [le_iff_rank hx hy] at h
  rw [le_iff_rank hy hx] at h'
  exact .inl ((beq_iff_rank hx hy).2 (le_antisymm h h'))

end Binary32

namespace Bounds

variable {b c : Bounds Float32} {p : Point Float32}

/-- Boxes that cover each other are one box, as numbers. -/
theorem Covers.alike (h : b.Covers c) (h' : c.Covers b) : b.Alike c where
  min := ⟨Binary32.alike_of_le h.min_x h'.min_x, Binary32.alike_of_le h.min_y h'.min_y⟩
  max := ⟨Binary32.alike_of_le h'.max_x h.max_x, Binary32.alike_of_le h'.max_y h.max_y⟩

theorem Contains.isNumber (h : b.Contains p) :
    b.min.IsNumber ∧ p.IsNumber ∧ b.max.IsNumber := by
  obtain ⟨hx, hpx⟩ := Binary32.isNaN_of_le h.min_x
  obtain ⟨hy, hpy⟩ := Binary32.isNaN_of_le h.min_y
  exact ⟨⟨hx, hy⟩, ⟨hpx, hpy⟩, (Binary32.isNaN_of_le h.max_x).2, (Binary32.isNaN_of_le h.max_y).2⟩

theorem Contains.insert_alike (h : b.Contains p) : (b.insert p).Alike b := by
  obtain ⟨hmin, hp, hmax⟩ := h.isNumber
  exact (insert_covers hmin hmax hp).alike (h.covers_insert hmin hmax)

theorem Ordered.rect_alike (h : b.Ordered) : b.rect.Alike b := by
  obtain ⟨hx, hx'⟩ := Binary32.isNaN_of_le h.x
  obtain ⟨hy, hy'⟩ := Binary32.isNaN_of_le h.y
  exact (rect_covers ⟨hx, hy⟩ ⟨hx', hy'⟩).alike (h.covers_rect ⟨hx, hy⟩ ⟨hx', hy'⟩)

/-- A box that is settled by some points: its sides are their extreme coordinates, it is its
own rectangle, and no point inside it changes it. -/
structure SettledBy (b : Bounds Float32) (ps : List (Point Float32)) : Prop where
  tight : b.Tight ps
  ordered : b.Ordered
  rect : b.rect.Alike b
  inside : ∀ p, b.Contains p → (b.insert p).Alike b

theorem Tight.settledBy {ps : List (Point Float32)} (h : b.Tight ps) : b.SettledBy ps where
  tight := h
  ordered := h.ordered
  rect := h.ordered.rect_alike
  inside _ hp := hp.insert_alike

end Bounds

/-- The box on a point that takes in others is settled by all of them, and any box made of
the same points, from whichever of them, in whatever order and with whatever repetitions, is
the same box as numbers. -/
theorem box_depends_on_points_alone (p : Point Float32) (ps : List (Point Float32))
    (hnumber : ∀ q ∈ p :: ps, q.x.isNaN = false ∧ q.y.isNaN = false) :
    ((Bounds.ofPoint p).insertAll ps).SettledBy (p :: ps) ∧
    ∀ first rest, (∀ q, q ∈ first :: rest ↔ q ∈ p :: ps) →
      ((Bounds.ofPoint first).insertAll rest).Alike ((Bounds.ofPoint p).insertAll ps) := by
  have htight := Bounds.tight_insertAll_ofPoint (α := Float32) hnumber
  refine ⟨htight.settledBy, ?_⟩
  intro first rest hsame
  have hnumber' : ∀ q ∈ first :: rest, q.IsNumber := fun q hq => hnumber q ((hsame q).1 hq)
  have htight' := Bounds.tight_insertAll_ofPoint hnumber'
  have hcovers := htight.covers_of_subset htight' fun q hq => (hsame q).2 hq
  exact hcovers.alike (htight'.covers_of_subset htight fun q hq => (hsame q).1 hq)

/-- Three points taken in turn, and the same three from another one of them, in another order
and one of them twice; the two boxes keep different zeros. -/
theorem box_of_three_points_in_two_orders :
    let zero : Float32 := Float32.ofBits 0x00000000
    let negativeZero : Float32 := Float32.ofBits 0x80000000
    ((Bounds.ofPoint ⟨zero, 5⟩).insertAll [⟨negativeZero, -3⟩, ⟨7, zero⟩]).SettledBy
        [⟨zero, 5⟩, ⟨negativeZero, -3⟩, ⟨7, zero⟩] ∧
      ((Bounds.ofPoint ⟨7, zero⟩).insertAll
          [⟨negativeZero, -3⟩, ⟨zero, 5⟩, ⟨negativeZero, -3⟩, ⟨zero, 5⟩]).Alike
        ((Bounds.ofPoint ⟨zero, 5⟩).insertAll [⟨negativeZero, -3⟩, ⟨7, zero⟩]) := by
  intro zero negativeZero
  obtain ⟨hsettled, hsame⟩ :=
    box_depends_on_points_alone ⟨zero, 5⟩ [⟨negativeZero, -3⟩, ⟨7, zero⟩] (by decide +kernel)
  refine ⟨hsettled, hsame _ _ fun q => ?_⟩
  simp only [List.mem_cons, List.not_mem_nil, or_false]
  tauto

end LineArt
