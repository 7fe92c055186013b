import LineArt.Proofs.Centering
import LineArt.Proofs.Isometry
import LineArt.Proofs.Verdict

/-!
# Symmetries of centered pictures

A relabelled pattern, drawn centered on both axes, gives the mirror image or the turn of
the picture about the center of the canvas.  Both runs measure first; their boxes are
images of each other, so the starts they find are images about the canvas center, and
the drawing passes follow point by point.
-/

namespace LineArt

variable {α β : Type}

/-! ### Exact signed scalars -/

instance : SignedScalar ℚ where
  Alike := Eq
  alike_refl := Eq.refl
  alike_symm := Eq.symm
  alike_trans := Eq.trans
  alike_add h h' := congrArg₂ (· + ·) h h'
  alike_mul h h' := congrArg₂ (· * ·) h h'
  alike_neg h := congrArg Neg.neg h
  lt_of_alike h h' hlt := h ▸ h' ▸ hlt
  neg_zero := neg_zero
  neg_neg := neg_neg
  neg_add := neg_add
  neg_mul := neg_mul
  neg_lt_neg_iff := neg_lt_neg_iff

theorem Point.Alike.eq {p q : Point ℚ} (h : p.Alike q) : p = q := congrArg₂ Point.mk h.x h.y

theorem Bounds.Alike.eq {b c : Bounds ℚ} (h : b.Alike c) : b = c :=
  congrArg₂ Bounds.mk h.min.eq h.max.eq

theorem center_eq (b : Bounds ℚ) :
    b.center = ⟨(b.min.x + b.max.x) / 2, (b.min.y + b.max.y) / 2⟩ :=
  congrArg₂ Point.mk (center_x b) (center_y b)

/-! ### The drawing pass -/

def Instruction.setsStyle : Instruction α → Bool
  | setStrokeStyle .. => true
  | _ => false

/-- What a run gives from the stroke style on: its drawing pass, without a pass that
measured before it. -/
def Trace.drawingPass (t : Trace α β) : List (Instruction α) :=
  t.instructions.dropWhile fun i => !i.setsStyle

/-- The middle of the canvas, which extends from the origin. -/
def Config.canvasCenter [Scalar α] (config : Config α) : Point α :=
  (Bounds.ofCorners Point.origin config.canvas).middle

theorem canvasCenter_eq (config : Config ℚ) :
    config.canvasCenter = ⟨config.canvas.x / 2, config.canvas.y / 2⟩ := by
  have hmean (v : ℚ) : (Scalar.least 0 v + Scalar.greatest 0 v) * Scalar.half = v / 2 := by
    rw [mean_of_extrema, zero_add]
  exact congrArg₂ Point.mk (hmean config.canvas.x) (hmean config.canvas.y)

section Passes

variable [Scalar α] (config : Config α) {start : Start α} {point : Point α} {pattern : String}

theorem TwoPasses.drawingPass (h : TwoPasses config start pattern point) :
    (draw config start pattern).drawingPass
      = (execute config point pattern .draw).instructions := by
  have hmoves : ∀ i ∈ (measure config (.ofPoint .origin) pattern).instructions,
      (!i.setsStyle) = true := by
    intro i hi
    obtain ⟨p, rfl⟩ := onlyMoves_measure config (.ofPoint .origin) pattern i hi
    rfl
  unfold Trace.drawingPass
  rw [h.draw_instructions, List.dropWhile_append_of_pos hmoves, instructions_draw, run_ofPoint,
    execute_eq]
  rfl

theorem outcome_draw (start : Start α) (pattern : String) :
    (draw config start pattern).outcome = validate pattern := by
  rw [draw_eq, Trace.outcome_andThen_done]
  exact verdict_run config start pattern .draw

end Passes

namespace Symmetry

variable (s : Symmetry)

/-! ### Symmetries about a center -/

/-- The symmetry of the plane that keeps a given center where it is. -/
def about (center p : Point ℚ) : Point ℚ := center + s.onPoint (p - center)

theorem about_add (center p v : Point ℚ) :
    s.about center (p + v) = s.about center p + s.onPoint v := by
  have hsum : p + v - center = p - center + v :=
    congrArg₂ Point.mk (add_sub_right_comm ..) (add_sub_right_comm ..)
  unfold about
  rw [hsum, (s.onPoint_add (p - center) v).eq]
  exact congrArg₂ Point.mk (add_assoc ..).symm (add_assoc ..).symm

theorem onPoint_sub (p q : Point ℚ) : s.onPoint (p - q) = s.onPoint p - s.onPoint q := by
  have hadd := (s.onPoint_add (p - q) q).eq
  have hsum : p - q + q = p := congrArg₂ Point.mk (sub_add_cancel ..) (sub_add_cancel ..)
  rw [hsum] at hadd
  rw [hadd]
  exact congrArg₂ Point.mk (add_sub_cancel_right ..).symm (add_sub_cancel_right ..).symm

theorem onPoint_origin : s.onPoint (.origin : Point ℚ) = .origin := by
  cases s <;> decide

theorem center_onBounds (b : Bounds ℚ) : (s.onBounds b).center = s.onPoint b.center := by
  have hneg (u v : ℚ) : (-v + -u) / 2 = -((u + v) / 2) := by ring
  have hx := hneg b.min.x b.max.x
  have hy := hneg b.min.y b.max.y
  rw [center_eq, center_eq]
  cases s with
  | identity => rfl
  | mirrorHorizontal => exact congrArg₂ Point.mk hx rfl
  | mirrorVertical => exact congrArg₂ Point.mk rfl hy
  | rotate90 => exact congrArg₂ Point.mk hy rfl
  | rotate180 => exact congrArg₂ Point.mk hx hy
  | rotate270 => exact congrArg₂ Point.mk rfl hx

/-- Runs from images about a center, with the step turned. -/
def aboutCorrespondence (center step : Point ℚ) : Correspondence step (s.onStep step) where
  point p q := q = s.about center p
  box _ _ := True
  turn := s.map
  move {p q} d n h := by
    rw [h, about_add, (s.onPoint_displacement step d n).eq]
  ofPoint _ := trivial
  insert _ _ := trivial

/-! ### Centered runs -/

variable (config : Config ℚ) {pattern : String}

/-- The settings with the step turned. -/
def turned (config : Config ℚ) : Config ℚ := { config with step := s.onStep config.step }

theorem about_sub (center v : Point ℚ) : s.about center (center - v) = center - s.onPoint v := by
  have hback (c v : ℚ) : c - v - c = 0 - v := by ring
  have hforth (c v : ℚ) : c + (0 - v) = c - v := by ring
  have hoff : center - v - center = .origin - v :=
    congrArg₂ Point.mk (hback center.x v.x) (hback center.y v.y)
  unfold about
  rw [hoff, onPoint_sub, onPoint_origin]
  exact congrArg₂ Point.mk (hforth center.x _) (hforth center.y _)

/-- The starts that two centered runs find are images about the canvas center. -/
theorem exists_centered_passes (hvalid : validate pattern = .ok ()) :
    ∃ point, TwoPasses config .centered pattern point ∧
      TwoPasses (s.turned config) .centered (s.apply pattern)
        (s.about config.canvasCenter point) := by
  have hturned : validate (s.apply pattern) = .ok () := (s.validate_apply pattern).trans hvalid
  have hcentered : (.centered : Start ℚ).x = .centered ∨ (.centered : Start ℚ).y = .centered :=
    .inl rfl
  obtain ⟨c, hc, hpasses⟩ := exists_twoPasses config hvalid hcentered
  obtain ⟨d, hd, hpasses'⟩ := exists_twoPasses (s.turned config) hturned hcentered
  -- Both runs measure from the origin, which the symmetry keeps, so the boxes are images.
  have houtcome := (s.matches_execute config .origin pattern .measure).outcome
  rw [onPoint_origin, hc] at houtcome
  change OutcomesMatch _ _ (execute (s.turned config) .origin _ _).outcome at houtcome
  rw [hd] at houtcome
  obtain ⟨hmatch⟩ := houtcome
  have hbox : d.bounds = s.onBounds c.bounds := hmatch.bounds.eq
  refine ⟨centering config c.bounds, hpasses, ?_⟩
  have hstart : centering (s.turned config) d.bounds
      = s.about config.canvasCenter (centering config c.bounds) := by
    show config.canvasCenter - d.bounds.center
      = s.about config.canvasCenter (config.canvasCenter - c.bounds.center)
    rw [about_sub, hbox, center_onBounds]
  exact hstart ▸ hpasses'

theorem about_execute (center point : Point ℚ) (mode : Mode) :
    List.Forall₂ (Instruction.Matches fun p q => q = s.about center p)
      (execute config point pattern mode).instructions
      (execute (s.turned config) (s.about center point) (s.apply pattern) mode).instructions :=
  ((s.aboutCorrespondence center config.step).execute mode (s.tokenize_apply pattern) rfl).instructions

/-- A valid pattern and its relabelled text, both drawn centered on both axes, the step
turned for the latter: both runs succeed, and the drawing pass of the relabelled text is the
drawing pass of the pattern, instruction by instruction, with every point at its image
about the center of the canvas.  The drawing pass is a whole pass from the point found. -/
theorem centered_picture_is_image_about_center (hvalid : validate pattern = .ok ()) :
    config.canvasCenter = ⟨config.canvas.x / 2, config.canvas.y / 2⟩ ∧
    (draw config .centered pattern).outcome = .ok () ∧
    (draw (s.turned config) .centered (s.apply pattern)).outcome = .ok () ∧
    (∃ point, (draw config .centered pattern).drawingPass
        = (execute config point pattern .draw).instructions ∧
      (draw (s.turned config) .centered (s.apply pattern)).drawingPass
        = (execute (s.turned config) (s.about config.canvasCenter point) (s.apply pattern)
          .draw).instructions) ∧
    List.Forall₂ (Instruction.Matches fun p q => q = s.about config.canvasCenter p)
      (draw config .centered pattern).drawingPass
      (draw (s.turned config) .centered (s.apply pattern)).drawingPass := by
  have hturned : validate (s.apply pattern) = .ok () := (s.validate_apply pattern).trans hvalid
  obtain ⟨point, hpasses, hpasses'⟩ := s.exists_centered_passes config hvalid
  have hpass := hpasses.drawingPass
  have hpass' := hpasses'.drawingPass
  refine ⟨canvasCenter_eq config, ?_, ?_, ⟨point, hpass, hpass'⟩, ?_⟩
  · rw [outcome_draw, hvalid]
  · rw [outcome_draw, hturned]
  · rw [hpass, hpass']
    exact s.about_execute config config.canvasCenter point .draw

/-- The law at a quarter turn of a bend with a connector and a jump. -/
theorem turned_bend_is_image_about_center :
    List.Forall₂ (Instruction.Matches fun p q => q = rotate90.about ⟨400, 400⟩ p)
      (draw (.standard : Config ℚ) .centered "a5.[3|A]2/@").drawingPass
      (draw (rotate90.turned (.standard : Config ℚ)) .centered
        (rotate90.apply "a5.[3|A]2/@")).drawingPass := by
  have hvalid : validate "a5.[3|A]2/@" = .ok () := (validate_eq_ok_iff _).2 (by decide +kernel)
  obtain ⟨-, -, -, -, hmatch⟩ :=
    rotate90.centered_picture_is_image_about_center (.standard : Config ℚ) hvalid
  have hcenter : (.standard : Config ℚ).canvasCenter = ⟨400, 400⟩ := by decide +kernel
  rwa [hcenter] at hmatch

end Symmetry

end LineArt
