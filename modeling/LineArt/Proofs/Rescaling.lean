import LineArt.Proofs.Affine

/-!
# Rescaled runs

Without touching the text, the step rescales a drawing about its start and the start
moves it.  In exact arithmetic the run at a scaled step from another start is the
image of the run under one affine map, point by point.
-/

namespace LineArt

/-- The map that takes one start to another and scales about it. -/
def Point.rescale (p start start' k : Point ℚ) : Point ℚ := start' + k * (p - start)

/-- On every axis whose factor is not negative, the sides of a box are the images of
another's. -/
def Bounds.Rescaled (start start' k : Point ℚ) (b c : Bounds ℚ) : Prop :=
  (0 ≤ k.x → c.min.x = (b.min.rescale start start' k).x ∧
    c.max.x = (b.max.rescale start start' k).x) ∧
  (0 ≤ k.y → c.min.y = (b.min.rescale start start' k).y ∧
    c.max.y = (b.max.rescale start start' k).y)

section Map

variable (start start' k : Point ℚ)

theorem affine_eq_rescale (p : Point ℚ) :
    k * p + (start' - k * start) = p.rescale start start' k := by
  have hline (k p s s' : ℚ) : k * p + (s' - k * s) = s' + k * (p - s) := by ring
  exact congrArg₂ Point.mk (hline k.x p.x start.x start'.x) (hline k.y p.y start.y start'.y)

theorem rescale_start : start.rescale start start' k = start' := by
  have hfixed (k s s' : ℚ) : s' + k * (s - s) = s' := by ring
  exact congrArg₂ Point.mk (hfixed k.x start.x start'.x) (hfixed k.y start.y start'.y)

theorem image_eq_rescaled :
    Bounds.Image k (start' - k * start) = Bounds.Rescaled start start' k := by
  have hx (p : Point ℚ) := congrArg Point.x (affine_eq_rescale start start' k p)
  have hy (p : Point ℚ) := congrArg Point.y (affine_eq_rescale start start' k p)
  simp only [Point.add_x, Point.add_y, Point.mul_x, Point.mul_y] at hx hy
  funext b c
  simp only [Bounds.Image, Bounds.Rescaled, hx, hy]

end Map

theorem rescaled_execute (start start' k : Point ℚ) (config : Config ℚ) (pattern : String)
    (mode : Mode) :
    Trace.Matches (fun p q => q = p.rescale start start' k)
      (Cursor.Matches (fun p q => q = p.rescale start start' k)
        (Bounds.Rescaled start start' k))
      (execute config start pattern mode)
      (execute { config with step := k * config.step } start' pattern mode) := by
  have h := affine_execute k (start' - k * start) config start pattern mode
  rw [affine_eq_rescale, rescale_start, image_eq_rescaled] at h
  simp only [affine_eq_rescale] at h
  exact h

/-- A valid pattern run from another start at a scaled step, in either mode: both runs
succeed, they record instructions of the same kinds in the same order, and the points of
one, recorded or held at the end, are the images of the other's. -/
theorem rescaled_run_is_affine_image (start start' k : Point ℚ) (config : Config ℚ)
    {pattern : String} (hvalid : validate pattern = .ok ()) (mode : Mode) :
    ∃ c d, (execute config start pattern mode).outcome = .ok c ∧
      (execute { config with step := k * config.step } start' pattern mode).outcome = .ok d ∧
      c.Matches (fun p q => q = p.rescale start start' k) (Bounds.Rescaled start start' k) d ∧
      List.Forall₂ (Instruction.Matches fun p q => q = p.rescale start start' k)
        (execute config start pattern mode).instructions
        (execute { config with step := k * config.step } start' pattern mode).instructions := by
  have hmatch := rescaled_execute start start' k config pattern mode
  have houtcome := hmatch.outcome
  have hc := outcome_execute_of_valid config start mode hvalid
  have hd := outcome_execute_of_valid { config with step := k * config.step } start' mode hvalid
  rw [hc, hd] at houtcome
  obtain ⟨hcd⟩ := houtcome
  exact ⟨_, _, hc, hd, hcd, hmatch.instructions⟩

/-- The law at a pattern with a jump, a connector and a reset, turned over along y. -/
theorem rescaled_bend_is_affine_image :
    ∃ c d, (execute (.standard : Config ℚ) .origin "a5.[3|A]2/@" .draw).outcome = .ok c ∧
      (execute { (.standard : Config ℚ) with step := ⟨3, -2⟩ * (.standard : Config ℚ).step } ⟨7, 1⟩
        "a5.[3|A]2/@" .draw).outcome = .ok d ∧
      c.Matches (fun p q => q = p.rescale .origin ⟨7, 1⟩ ⟨3, -2⟩)
        (Bounds.Rescaled .origin ⟨7, 1⟩ ⟨3, -2⟩) d ∧
      List.Forall₂ (Instruction.Matches fun p q => q = p.rescale .origin ⟨7, 1⟩ ⟨3, -2⟩)
        (execute (.standard : Config ℚ) .origin "a5.[3|A]2/@" .draw).instructions
        (execute { (.standard : Config ℚ) with step := ⟨3, -2⟩ * (.standard : Config ℚ).step }
          ⟨7, 1⟩ "a5.[3|A]2/@" .draw).instructions := by
  have hvalid : validate "a5.[3|A]2/@" = .ok () := (validate_eq_ok_iff _).2 (by decide +kernel)
  exact rescaled_run_is_affine_image .origin ⟨7, 1⟩ ⟨3, -2⟩ .standard hvalid .draw

end LineArt
