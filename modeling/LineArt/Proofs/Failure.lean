import LineArt.Proofs.Prefix

/-!
# Failing runs

A pass that fails has shown just what the pass over the text before the bad
character shows, less the closing stroke.  A run that is to measure first fails in
its measuring pass, before anything is drawn.
-/

namespace LineArt

variable {α β γ δ : Type}

theorem isMotion_of_mem_effect (mode : Mode) (c : Cursor α) (e : Effect α) :
    ∀ i ∈ e.instructions mode c, i.isMotion := by
  have hmotion (drawn : Bool) (p : Point α) : (motion drawn p).isMotion := by
    cases drawn <;> rfl
  intro i hi
  cases e with
  | none => contradiction
  | moved => exact List.mem_singleton.1 hi ▸ hmotion _ _
  | captureClosed anchor =>
    rcases List.mem_cons.1 hi with rfl | hi
    · rfl
    · exact List.mem_singleton.1 hi ▸ hmotion _ _

namespace Trace

/-- A trace breaks off where another, over less text, comes to its end: it shows the
same, less what closes a pass, and commits nothing. -/
structure BreaksOff (cut whole : Trace α β) (mode : Mode) (fault : InvalidToken) : Prop where
  failed : cut.outcome = .error fault
  completed : ∃ b, whole.outcome = .ok b
  kept : whole.instructions = cut.instructions ++ epilogue mode
  uncommitted : Instruction.stroke ∉ cut.instructions

/-- A trace that fails while it measures shows what a measuring pass shows. -/
structure FailsMeasuring (t : Trace α β) (pass : Trace α γ) (fault : InvalidToken) :
    Prop where
  failed : t.outcome = .error fault
  shown : t.instructions = pass.instructions
  onlyMoves : t.OnlyMoves

theorem BreaksOff.andThen_done {cut whole : Trace α β} {mode : Mode} {fault : InvalidToken}
    (h : cut.BreaksOff whole mode fault) (f : β → γ) :
    (cut.andThen fun b => done (f b)).BreaksOff (whole.andThen fun b => done (f b)) mode fault := by
  obtain ⟨b, hb⟩ := h.completed
  constructor
  · rw [outcome_andThen_done, h.failed]
    rfl
  · rw [outcome_andThen_done, hb]
    exact ⟨f b, rfl⟩
  · rw [instructions_andThen_done, instructions_andThen_done]
    exact h.kept
  · rw [instructions_andThen_done]
    exact h.uncommitted

theorem FailsMeasuring.andThen {t : Trace α β} {pass : Trace α γ} {fault : InvalidToken}
    (h : t.FailsMeasuring pass fault) (next : β → Trace α δ) :
    (t.andThen next).FailsMeasuring pass fault := by
  have hkept := instructions_andThen_of_error next h.failed
  constructor
  · exact outcome_andThen_of_error next h.failed
  · rw [hkept, h.shown]
  · intro i hi
    rw [hkept] at hi
    exact h.onlyMoves i hi

end Trace

variable [Scalar α]

theorem isMotion_of_mem_walk (step : Point α) (mode : Mode) (c : Cursor α)
    (tokens : List (Nat × Token)) : ∀ i ∈ (walk step mode c tokens).instructions, i.isMotion := by
  induction tokens using tokens_induction generalizing c with
  | nil => exact List.forall_mem_nil _
  | invalid index token char rest ht =>
    rw [walk_cons_invalid _ _ _ _ _ ht]
    intro i hi
    contradiction
  | valid index token rest ht ih =>
    rw [walk_cons_valid _ _ _ _ _ ht, Trace.instructions_after, List.forall_mem_append]
    exact ⟨isMotion_of_mem_effect _ _ _, ih _⟩

theorem stroke_not_mem_of_error {config : Config α} {start : Point α} {pattern : String}
    {mode : Mode} {fault : InvalidToken}
    (h : (execute config start pattern mode).outcome = .error fault) :
    Instruction.stroke ∉ (execute config start pattern mode).instructions := by
  rw [outcome_execute] at h
  rw [execute_eq, Trace.instructions_after, Trace.instructions_andThen_of_error _ h,
    List.mem_append, not_or]
  constructor
  · cases mode <;> simp [prologue]
  · intro hmem
    have hmotion := isMotion_of_mem_walk _ _ _ _ _ hmem
    contradiction

section Failing

variable (config : Config α) {u : String} (v : String) {c : Char}

theorem breaksOff_execute (point : Point α) (mode : Mode) (hu : validate u = .ok ())
    (hc : ¬ InAlphabet c) :
    (execute config point (u.push c ++ v) mode).BreaksOff (execute config point u mode) mode
      ⟨c, u.length⟩ := by
  have h := reaches_of_valid config point mode hu
  have hcut := h.breaks hc v
  have hfailed : (execute config point (u.push c ++ v) mode).outcome
      = .error ⟨c, u.length⟩ := by rw [hcut]; rfl
  refine ⟨hfailed, ⟨_, h.outcome⟩, ?_, stroke_not_mem_of_error hfailed⟩
  rw [h.instructions, hcut]
  simp [Trace.fail]

theorem failsMeasuring_run {start : Start α} (mode : Mode) (hu : validate u = .ok ())
    (hc : ¬ InAlphabet c) (hcentered : start.x = .centered ∨ start.y = .centered) :
    (run config start (u.push c ++ v) mode).FailsMeasuring (measure config (.ofPoint .origin) u)
      ⟨c, u.length⟩ := by
  have hcut := breaksOff_execute config v .origin .measure hu hc
  have hkept : (execute config .origin (u.push c ++ v) .measure).instructions
      = (measure config (.ofPoint .origin) u).instructions := by
    rw [instructions_measure, run_ofPoint, hcut.kept]
    exact (List.append_nil _).symm
  have hpass : (execute config .origin (u.push c ++ v) .measure).FailsMeasuring
      (measure config (.ofPoint .origin) u) ⟨c, u.length⟩ :=
    ⟨hcut.failed, hkept, onlyMoves_execute config .origin _⟩
  -- The starting point is not found, so no second pass begins.
  have hpoint : (startingPoint config start (u.push c ++ v)).FailsMeasuring
      (measure config (.ofPoint .origin) u) ⟨c, u.length⟩ := by
    rw [startingPoint_of_centered config _ hcentered]
    exact hpass.andThen _
  exact hpoint.andThen _

/-- A run of a valid text, then a character outside the alphabet, then anything shows
what the run of the valid text shows, less the closing stroke.  From a centered start
it fails in the measuring pass: it shows what measuring the valid text from the origin
shows, and draws nothing. -/
theorem failed_run_shows_valid_prefix (hu : validate u = .ok ()) (hc : ¬ InAlphabet c) :
    (∀ point : Point α,
      (∀ mode, (execute config point (u.push c ++ v) mode).BreaksOff
        (execute config point u mode) mode ⟨c, u.length⟩) ∧
      (∀ mode, (interpret config (.ofPoint point) (u.push c ++ v) mode).BreaksOff
        (interpret config (.ofPoint point) u mode) mode ⟨c, u.length⟩) ∧
      (draw config (.ofPoint point) (u.push c ++ v)).BreaksOff
        (draw config (.ofPoint point) u) .draw ⟨c, u.length⟩ ∧
      (measure config (.ofPoint point) (u.push c ++ v)).BreaksOff
        (measure config (.ofPoint point) u) .measure ⟨c, u.length⟩) ∧
    ∀ start : Start α, start.x = .centered ∨ start.y = .centered →
      (∀ mode, (interpret config start (u.push c ++ v) mode).FailsMeasuring
        (measure config (.ofPoint .origin) u) ⟨c, u.length⟩) ∧
      (draw config start (u.push c ++ v)).FailsMeasuring
        (measure config (.ofPoint .origin) u) ⟨c, u.length⟩ ∧
      (measure config start (u.push c ++ v)).FailsMeasuring
        (measure config (.ofPoint .origin) u) ⟨c, u.length⟩ := by
  constructor
  · intro point
    have hcut (mode : Mode) := breaksOff_execute config v point mode hu hc
    refine ⟨hcut, ?_, ?_, ?_⟩
    · intro mode
      rw [interpret_eq, interpret_eq, run_ofPoint, run_ofPoint]
      exact (hcut mode).andThen_done _
    · rw [draw_eq, draw_eq, run_ofPoint, run_ofPoint]
      exact (hcut .draw).andThen_done _
    · rw [measure_eq, measure_eq, run_ofPoint, run_ofPoint]
      exact (hcut .measure).andThen_done _
  · intro start hcentered
    have hrun (mode : Mode) := failsMeasuring_run config v mode hu hc hcentered
    refine ⟨?_, ?_, ?_⟩
    · intro mode
      rw [interpret_eq]
      exact (hrun mode).andThen _
    · rw [draw_eq]
      exact (hrun .draw).andThen _
    · rw [measure_eq config start]
      exact (hrun .measure).andThen _

end Failing

/-- The law at two moves before a bad character, drawn from the origin and centered. -/
theorem failed_bend_shows_two_moves :
    (draw (.standard : Config Float32) (.ofPoint .origin) "3.3|#2.").BreaksOff
        (draw .standard (.ofPoint .origin) "3.3|") .draw ⟨'#', 4⟩ ∧
      (draw (.standard : Config Float32) .centered "3.3|#2.").FailsMeasuring
        (measure .standard (.ofPoint .origin) "3.3|") ⟨'#', 4⟩ := by
  have hvalid : validate "3.3|" = .ok () := (validate_eq_ok_iff _).2 (by decide +kernel)
  have hbad : ¬ InAlphabet '#' := by decide
  obtain ⟨hpoint, hcentered⟩ :=
    failed_run_shows_valid_prefix (.standard : Config Float32) "2." hvalid hbad
  obtain ⟨-, -, hdraw, -⟩ := hpoint .origin
  obtain ⟨-, hcenter, -⟩ := hcentered .centered (.inl rfl)
  exact ⟨hdraw, hcenter⟩

end LineArt
