import LineArt.Proofs.Relabelling
import LineArt.Proofs.Signed

/-!
# Symmetries as maps of the plane

Relabelling the direction symbols of a pattern moves its drawing as a linear map
of the plane does.  Each symmetry acts on points, on steps and on boxes, and the
action commutes with one axis move and with one growth of the bounds; whole runs
follow.
-/

namespace LineArt

variable {α : Type}

namespace Symmetry

/-! ### Actions on the plane -/

def onPoint [Neg α] : Symmetry → Point α → Point α
  | identity, p => p
  | mirrorHorizontal, p => ⟨-p.x, p.y⟩
  | mirrorVertical, p => ⟨p.x, -p.y⟩
  | rotate90, p => ⟨-p.y, p.x⟩
  | rotate180, p => ⟨-p.x, -p.y⟩
  | rotate270, p => ⟨p.y, -p.x⟩

/-- A quarter turn lays the step along x out along y, and the other way round. -/
def onStep : Symmetry → Point α → Point α
  | rotate90, step => ⟨step.y, step.x⟩
  | rotate270, step => ⟨step.y, step.x⟩
  | _, step => step

theorem onStep_splat (s : Symmetry) (k : α) : s.onStep (Point.splat k) = Point.splat k := by
  cases s <;> rfl

/-- The image of a box: on an axis that is negated its two sides change places. -/
def onBounds [Neg α] : Symmetry → Bounds α → Bounds α
  | identity, b => b
  | mirrorHorizontal, b => ⟨⟨-b.max.x, b.min.y⟩, ⟨-b.min.x, b.max.y⟩⟩
  | mirrorVertical, b => ⟨⟨b.min.x, -b.max.y⟩, ⟨b.max.x, -b.min.y⟩⟩
  | rotate90, b => ⟨⟨-b.max.y, b.min.x⟩, ⟨-b.min.y, b.max.x⟩⟩
  | rotate180, b => ⟨⟨-b.max.x, -b.max.y⟩, ⟨-b.min.x, -b.min.y⟩⟩
  | rotate270, b => ⟨⟨b.min.y, -b.max.x⟩, ⟨b.max.y, -b.min.x⟩⟩

section Action

variable [SignedScalar α] (s : Symmetry)

open SignedScalar

theorem onPoint_add (p q : Point α) : (s.onPoint (p + q)).Alike (s.onPoint p + s.onPoint q) := by
  have hx := neg_add p.x q.x
  have hy := neg_add p.y q.y
  cases s with
  | identity => exact .refl _
  | mirrorHorizontal => exact ⟨hx, alike_refl _⟩
  | mirrorVertical => exact ⟨alike_refl _, hy⟩
  | rotate90 => exact ⟨hy, alike_refl _⟩
  | rotate180 => exact ⟨hx, hy⟩
  | rotate270 => exact ⟨alike_refl _, hx⟩

theorem onPoint_mul (p step : Point α) :
    (s.onPoint (p * step)).Alike (s.onPoint p * s.onStep step) := by
  have hx := alike_symm (neg_mul p.x step.x)
  have hy := alike_symm (neg_mul p.y step.y)
  cases s with
  | identity => exact .refl _
  | mirrorHorizontal => exact ⟨hx, alike_refl _⟩
  | mirrorVertical => exact ⟨alike_refl _, hy⟩
  | rotate90 => exact ⟨hy, alike_refl _⟩
  | rotate180 => exact ⟨hx, hy⟩
  | rotate270 => exact ⟨alike_refl _, hx⟩

theorem onPoint_scale (p : Point α) (k : α) :
    (s.onPoint (p.scale k)).Alike ((s.onPoint p).scale k) := by
  have h := s.onPoint_mul p (Point.splat k)
  rw [onStep_splat] at h
  exact h

/-- The action on points and the relabelling of moves are one: where a unit move
is turned, so is its displacement. -/
theorem unit_map (d : Direction) : (s.map d).unit.Alike (s.onPoint (d.unit : Point α)) := by
  have hzero : Alike (Scalar.zero : α) (-Scalar.zero) := alike_symm neg_zero
  have hone : Alike (Scalar.one : α) (- -Scalar.one) := alike_symm (neg_neg _)
  cases s <;> cases d
  all_goals
    constructor
    all_goals first
      | exact alike_refl _
      | exact hzero
      | exact hone

theorem onPoint_displacement (step : Point α) (d : Direction) (n : UInt32) :
    (((s.map d).unit * s.onStep step).scale (Scalar.ofCount n)).Alike
      (s.onPoint ((d.unit * step).scale (Scalar.ofCount n))) := by
  have hunit := ((s.unit_map d).mul (.refl (s.onStep step))).trans
    (s.onPoint_mul d.unit step).symm
  exact (hunit.scale (Scalar.ofCount n)).trans
    (s.onPoint_scale (d.unit * step) (Scalar.ofCount n)).symm

/-! ### Boxes -/

theorem onBounds_ofPoint (p : Point α) :
    s.onBounds (Bounds.ofPoint p) = Bounds.ofPoint (s.onPoint p) := by
  cases s <;> rfl

theorem onBounds_insert (b : Bounds α) (p : Point α) :
    s.onBounds (b.insert p) = (s.onBounds b).insert (s.onPoint p) := by
  cases s <;>
    simp only [onBounds, onPoint, Bounds.insert, Point.least, Point.greatest, least_neg,
      greatest_neg]

/-! ### Runs -/

def correspondence (step : Point α) : Correspondence step (s.onStep step) where
  point p q := q.Alike (s.onPoint p)
  box b c := c.Alike (s.onBounds b)
  turn := s.map
  move {p q} d n h := (h.add (s.onPoint_displacement step d n)).trans (s.onPoint_add _ _).symm
  ofPoint {p q} h := by
    rw [onBounds_ofPoint]
    exact Bounds.alike_ofPoint h
  insert {b c p q} hb h := by
    rw [onBounds_insert]
    exact hb.insert h

theorem matches_execute (config : Config α) (start : Point α) (pattern : String) (mode : Mode) :
    Trace.Matches (fun p q => q.Alike (s.onPoint p))
      (Cursor.Matches (fun p q => q.Alike (s.onPoint p)) fun b c => c.Alike (s.onBounds b))
      (execute config start pattern mode)
      (execute { config with step := s.onStep config.step } (s.onPoint start) (s.apply pattern)
        mode) := by
  have hstart : (s.correspondence config.step).point start (s.onPoint start) := .refl _
  exact (s.correspondence config.step).execute mode (s.tokenize_apply pattern) hstart

end Action

/-- A relabelled pattern runs as its symmetry says: from the image of the start,
with the step turned, it gives the same instructions at the images of the points
and ends alike, in the image of the final cursor or on the same fault. -/
theorem relabelled_run_is_image (s : Symmetry) (config : Config Float32) (start : Point Float32)
    (pattern : String) (mode : Mode) :
    Trace.Matches (fun p q => q.Alike (s.onPoint p))
      (Cursor.Matches (fun p q => q.Alike (s.onPoint p)) fun b c => c.Alike (s.onBounds b))
      (execute config start pattern mode)
      (execute { config with step := s.onStep config.step } (s.onPoint start) (s.apply pattern)
        mode) :=
  s.matches_execute config start pattern mode

end Symmetry

end LineArt
