import LineArt.Proofs.Correspondence
import LineArt.Proofs.Exact
import Mathlib.Order.Lattice
import Mathlib.Tactic.Ring

/-!
# Affine maps of exact runs

Scaling the step scales a run about its start, and moving the start moves it.  Over
the rationals both are exact; a box is carried over on every axis whose factor is
not negative.
-/

namespace LineArt

variable {k t : ℚ}

theorem monotone_affine (hk : 0 ≤ k) (t : ℚ) : Monotone fun x : ℚ => k * x + t := by
  intro x y hxy
  have hmul := mul_le_mul_of_nonneg_left hxy hk
  exact add_le_add hmul le_rfl

theorem least_affine (hk : 0 ≤ k) (a b : ℚ) :
    Scalar.least (k * a + t) (k * b + t) = k * Scalar.least a b + t := by
  rw [least_eq_min, least_eq_min]
  exact (monotone_affine hk t).map_min.symm

theorem greatest_affine (hk : 0 ≤ k) (a b : ℚ) :
    Scalar.greatest (k * a + t) (k * b + t) = k * Scalar.greatest a b + t := by
  rw [greatest_eq_max, greatest_eq_max]
  exact (monotone_affine hk t).map_max.symm

/-- On one axis, the sides of a box stay the images of another's as both grow. -/
theorem extrema_affine (hk : 0 ≤ k) {low high v low' high' v' : ℚ}
    (h : low' = k * low + t ∧ high' = k * high + t) (hv : v' = k * v + t) :
    Scalar.least low' v' = k * Scalar.least low v + t ∧
      Scalar.greatest high' v' = k * Scalar.greatest high v + t := by
  obtain ⟨hlow, hhigh⟩ := h
  rw [hlow, hhigh, hv]
  exact ⟨least_affine hk low v, greatest_affine hk high v⟩

theorem displaced_affine (k t p u step n : ℚ) :
    k * p + t + u * (k * step) * n = k * (p + u * step * n) + t := by
  ring

/-- A box whose sides are the images of another's, on each axis with a factor that
is not negative. -/
def Bounds.Image (k t : Point ℚ) (b c : Bounds ℚ) : Prop :=
  (0 ≤ k.x → c.min.x = k.x * b.min.x + t.x ∧ c.max.x = k.x * b.max.x + t.x) ∧
    (0 ≤ k.y → c.min.y = k.y * b.min.y + t.y ∧ c.max.y = k.y * b.max.y + t.y)

/-- Runs from mapped starts at a scaled step. -/
def affineCorrespondence (k t step : Point ℚ) : Correspondence step (k * step) where
  point p q := q = k * p + t
  box := Bounds.Image k t
  turn := id
  move {p q} d n h := by
    have hx := displaced_affine k.x t.x p.x (d.unit : Point ℚ).x step.x (Scalar.ofCount n)
    have hy := displaced_affine k.y t.y p.y (d.unit : Point ℚ).y step.y (Scalar.ofCount n)
    rw [h]
    exact congrArg₂ Point.mk hx hy
  ofPoint {p q} h := by
    rw [h]
    exact ⟨fun _ => ⟨rfl, rfl⟩, fun _ => ⟨rfl, rfl⟩⟩
  insert {b c p q} hb h := by
    have hx : q.x = k.x * p.x + t.x := congrArg Point.x h
    have hy : q.y = k.y * p.y + t.y := congrArg Point.y h
    constructor
    · intro hk
      exact extrema_affine hk (hb.1 hk) hx
    · intro hk
      exact extrema_affine hk (hb.2 hk) hy

theorem affine_execute (k t : Point ℚ) (config : Config ℚ) (start : Point ℚ) (pattern : String)
    (mode : Mode) :
    Trace.Matches (fun p q => q = k * p + t)
      (Cursor.Matches (fun p q => q = k * p + t) (Bounds.Image k t))
      (execute config start pattern mode)
      (execute { config with step := k * config.step } (k * start + t) pattern mode) := by
  have htext : tokenize pattern = redirectAll id (tokenize pattern) := (redirectAll_id _).symm
  exact (affineCorrespondence k t config.step).execute mode htext rfl

theorem center_translated (t : Point ℚ) {config : Config ℚ} {start : Point ℚ} {pattern : String}
    {mode : Mode} {c : Cursor ℚ} (hc : (execute config start pattern mode).outcome = .ok c) :
    ∃ d : Cursor ℚ, (execute config (start + t) pattern mode).outcome = .ok d ∧
      d.bounds.center.x = c.bounds.center.x + t.x ∧
      d.bounds.center.y = c.bounds.center.y + t.y := by
  have hone (p : Point ℚ) : Point.splat 1 * p = p := congrArg₂ Point.mk (one_mul _) (one_mul _)
  have hmatch := (affine_execute (.splat 1) t config start pattern mode).outcome
  rw [hone, hone, hc] at hmatch
  cases hd : (execute config (start + t) pattern mode).outcome with
  | error fault =>
    rw [hd] at hmatch
    contradiction
  | ok d =>
    rw [hd] at hmatch
    obtain ⟨hcd⟩ := hmatch
    obtain ⟨hx, hy⟩ := hcd.bounds
    obtain ⟨hxlow, hxhigh⟩ := hx zero_le_one
    obtain ⟨hylow, hyhigh⟩ := hy zero_le_one
    refine ⟨d, rfl, ?_, ?_⟩
    · rw [center_x, center_x, hxlow, hxhigh]
      simp only [Point.splat]
      ring
    · rw [center_y, center_y, hylow, hyhigh]
      simp only [Point.splat]
      ring

end LineArt
