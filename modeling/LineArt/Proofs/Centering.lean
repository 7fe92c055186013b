import LineArt.Proofs.Affine
import LineArt.Proofs.Lifting

/-!
# Centered runs

A start that is centered on some axis takes two passes: one measures the pattern
from the origin, the other runs it from the point found.  The first adds moves
alone.  In exact arithmetic the second is the first, translated, so its box lies
centered on the canvas.
-/

namespace LineArt

/-! ### Two passes -/

section Passes

variable {α : Type} [Scalar α] (config : Config α) {start : Start α} {pattern : String}

/-- A centered run is a measuring pass from the origin and a run from a point that
keeps the axes that were given. -/
structure TwoPasses (config : Config α) (start : Start α) (pattern : String)
    (point : Point α) : Prop where
  resolved : (startingPoint config start pattern).outcome = .ok point
  given_x : ∀ v, start.x = .fixed v → point.x = v
  given_y : ∀ v, start.y = .fixed v → point.y = v
  interpret_instructions : ∀ mode,
    (interpret config start pattern mode).instructions
      = (measure config (.ofPoint .origin) pattern).instructions
        ++ (interpret config (.ofPoint point) pattern mode).instructions
  interpret_outcome : ∀ mode,
    (interpret config start pattern mode).outcome
      = (interpret config (.ofPoint point) pattern mode).outcome
  draw_instructions :
    (draw config start pattern).instructions
      = (measure config (.ofPoint .origin) pattern).instructions
        ++ (draw config (.ofPoint point) pattern).instructions
  measure_instructions :
    (measure config start pattern).instructions
      = (measure config (.ofPoint .origin) pattern).instructions
        ++ (measure config (.ofPoint point) pattern).instructions
  measure_outcome :
    (measure config start pattern).outcome = (measure config (.ofPoint point) pattern).outcome
  segments : ∀ mode,
    (interpret config start pattern mode).instructions.filterMap Instruction.line?
      = (interpret config (.ofPoint point) pattern mode).instructions.filterMap Instruction.line?

theorem twoPasses_of_resolved {point : Point α}
    (hcentered : start.x = .centered ∨ start.y = .centered)
    (hresolved : (startingPoint config start pattern).outcome = .ok point)
    (hx : ∀ v, start.x = .fixed v → point.x = v) (hy : ∀ v, start.y = .fixed v → point.y = v) :
    TwoPasses config start pattern point := by
  have hshown : (startingPoint config start pattern).instructions
      = (measure config (.ofPoint .origin) pattern).instructions := by
    rw [startingPoint_of_centered config pattern hcentered, Trace.instructions_andThen_done,
      instructions_measure, run_ofPoint]
  have hrun (mode : Mode) : (run config start pattern mode).instructions
      = (measure config (.ofPoint .origin) pattern).instructions
        ++ (run config (.ofPoint point) pattern mode).instructions := by
    rw [run_ofPoint, ← hshown]
    exact Trace.instructions_andThen_of_ok _ hresolved
  have hend (mode : Mode) : (run config start pattern mode).outcome
      = (run config (.ofPoint point) pattern mode).outcome := by
    rw [run_ofPoint]
    exact Trace.outcome_andThen_of_ok _ hresolved
  have hinterpret (mode : Mode) : (interpret config start pattern mode).instructions
      = (measure config (.ofPoint .origin) pattern).instructions
        ++ (interpret config (.ofPoint point) pattern mode).instructions := by
    rw [instructions_interpret, instructions_interpret, hrun]
  refine ⟨hresolved, hx, hy, hinterpret, ?_, ?_, ?_, ?_, ?_⟩
  · intro mode
    rw [interpret_eq, interpret_eq, Trace.outcome_andThen_done, Trace.outcome_andThen_done, hend]
  · rw [instructions_draw, instructions_draw, hrun]
  · rw [instructions_measure config start, instructions_measure config (.ofPoint point), hrun]
  · rw [measure_eq, measure_eq, Trace.outcome_andThen_done, Trace.outcome_andThen_done, hend]
  · intro mode
    have hmoves := onlyMoves_measure config (.ofPoint .origin) pattern
    rw [hinterpret, List.filterMap_append, hmoves.lines_eq_nil, List.nil_append]

theorem exists_twoPasses (hvalid : validate pattern = .ok ())
    (hcentered : start.x = .centered ∨ start.y = .centered) :
    ∃ cursor, (execute config .origin pattern .measure).outcome = .ok cursor ∧
      TwoPasses config start pattern
        ⟨start.x.resolve (centering config cursor.bounds).x,
          start.y.resolve (centering config cursor.bounds).y⟩ := by
  have hfirst := outcome_execute_of_valid config .origin .measure hvalid
  refine ⟨_, hfirst, ?_⟩
  apply twoPasses_of_resolved config hcentered
  · rw [startingPoint_of_centered config pattern hcentered, Trace.outcome_andThen_done, hfirst]
    rfl
  · intro v hv
    rw [hv]
    rfl
  · intro v hv
    rw [hv]
    rfl

end Passes

/-! ### Exact centering -/

theorem exists_centered_box (config : Config ℚ) {start : Start ℚ} {pattern : String}
    (hvalid : validate pattern = .ok ())
    (hcentered : start.x = .centered ∨ start.y = .centered) :
    ∃ point box, TwoPasses config start pattern point ∧
      (measure config start pattern).outcome = .ok box ∧
      (start.x = .centered → box.center.x = config.canvas.x / 2) ∧
      (start.y = .centered → box.center.y = config.canvas.y / 2) := by
  obtain ⟨c, hc, hpasses⟩ := exists_twoPasses config hvalid hcentered
  generalize hpoint : Point.mk (start.x.resolve (centering config c.bounds).x)
    (start.y.resolve (centering config c.bounds).y) = point at hpasses
  obtain ⟨d, hd, hx, hy⟩ := center_translated point hc
  have horigin : Point.origin + point = point := congrArg₂ Point.mk (zero_add _) (zero_add _)
  rw [horigin] at hd
  have hbox : (measure config start pattern).outcome = .ok d.bounds := by
    rw [hpasses.measure_outcome, measure_eq, Trace.outcome_andThen_done, run_ofPoint, hd]
    rfl
  refine ⟨point, d.bounds, hpasses, hbox, ?_, ?_⟩
  · intro h
    have hoffset : point.x = config.canvas.x / 2 - c.bounds.center.x := by
      rw [← hpoint, h, ← centering_x]
      rfl
    rw [hx, hoffset, add_sub_cancel]
  · intro h
    have hoffset : point.y = config.canvas.y / 2 - c.bounds.center.y := by
      rw [← hpoint, h, ← centering_y]
      rfl
    rw [hy, hoffset, add_sub_cancel]

/-- A valid pattern with a centered axis is run in two passes.  In exact arithmetic
the box measured has its center at half the canvas on each such axis; in rounded
arithmetic the passes are the same two. -/
theorem centered_run_centers (pattern : String) (hvalid : validate pattern = .ok ()) :
    (∀ (config : Config ℚ) (start : Start ℚ), start.x = .centered ∨ start.y = .centered →
      ∃ point box, TwoPasses config start pattern point ∧
        (measure config start pattern).outcome = .ok box ∧
        (start.x = .centered → box.center.x = config.canvas.x / 2) ∧
        (start.y = .centered → box.center.y = config.canvas.y / 2)) ∧
    ∀ (config : Config Float32) (start : Start Float32),
      start.x = .centered ∨ start.y = .centered →
      ∃ point, TwoPasses config start pattern point := by
  constructor
  · intro config start hcentered
    exact exists_centered_box config hvalid hcentered
  · intro config start hcentered
    obtain ⟨c, -, hpasses⟩ := exists_twoPasses config hvalid hcentered
    exact ⟨_, hpasses⟩

/-- The law at a bend whose x axis is centered, and at one centered on both axes. -/
theorem centered_bend_centers :
    (∃ point box, TwoPasses (.standard : Config ℚ) ⟨.centered, .fixed 7⟩ "5.3|" point ∧
      (measure (.standard : Config ℚ) ⟨.centered, .fixed 7⟩ "5.3|").outcome = .ok box ∧
      box.center.x = 400) ∧
    ∃ point, TwoPasses (.standard : Config Float32) .centered "5.3|" point := by
  have hvalid : validate "5.3|" = .ok () := (validate_eq_ok_iff _).2 (by decide +kernel)
  obtain ⟨hexact, hrounded⟩ := centered_run_centers "5.3|" hvalid
  obtain ⟨point, box, hpasses, hbox, hx, -⟩ := hexact .standard ⟨.centered, .fixed 7⟩ (.inl rfl)
  have hhalf : (.standard : Config ℚ).canvas.x / 2 = 400 := by decide +kernel
  exact ⟨⟨point, box, hpasses, hbox, (hx rfl).trans hhalf⟩, hrounded .standard .centered (.inl rfl)⟩

end LineArt
