import LineArt.Proofs.Walk
import Mathlib.Data.List.Basic

/-!
# Lifting the pen

A lifted recording keeps the way and drops the drawing: the stroke's own
instructions vanish and every line becomes a move.  Measuring is the lifted
drawing: the same outcome, the same points in the same order, and only moves.
-/

namespace LineArt

variable {α β γ : Type}

/-- What is left of an instruction when nothing is drawn. -/
def Instruction.lifted? : Instruction α → Option (Instruction α)
  | .setStrokeStyle _ _ => none
  | .beginPath => none
  | .stroke => none
  | .lineTo p => some (.moveTo p)
  | .moveTo p => some (.moveTo p)
  | .fillRect min max color => some (.fillRect min max color)
  | .arc center radius startAngle endAngle color thickness =>
    some (.arc center radius startAngle endAngle color thickness)

theorem Instruction.target?_of_lifted? {i j : Instruction α} (h : i.lifted? = some j) :
    j.target? = i.target? := by
  cases i <;> simp only [lifted?, Option.some.injEq, reduceCtorEq] at h <;> subst h <;> rfl

theorem Instruction.target?_of_lifted?_none {i : Instruction α} (h : i.lifted? = none) :
    i.target? = none := by
  cases i <;> simp only [lifted?, reduceCtorEq] at h <;> rfl

namespace Trace

/-- The trace with the pen lifted throughout. -/
def lifted (t : Trace α β) : Trace α β :=
  ⟨t.instructions.filterMap Instruction.lifted?, t.outcome⟩

def OnlyMoves (t : Trace α β) : Prop := ∀ i ∈ t.instructions, ∃ p, i = .moveTo p

/-- The points a trace visits, drawn or not, in order. -/
def points (t : Trace α β) : List (Point α) := t.instructions.filterMap Instruction.target?

@[simp] theorem instructions_lifted (t : Trace α β) :
    t.lifted.instructions = t.instructions.filterMap Instruction.lifted? := rfl

@[simp] theorem outcome_lifted (t : Trace α β) : t.lifted.outcome = t.outcome := rfl

@[simp] theorem lifted_done (b : β) : (done b : Trace α β).lifted = done b := rfl

@[simp] theorem lifted_fail (fault : InvalidToken) :
    (fail fault : Trace α β).lifted = fail fault := rfl

@[simp] theorem lifted_after (is : List (Instruction α)) (t : Trace α β) :
    (after is t).lifted = after (is.filterMap Instruction.lifted?) t.lifted := by
  simp [lifted, after]

theorem lifted_andThen (t : Trace α β) (next : β → Trace α γ) :
    (t.andThen next).lifted = t.lifted.andThen fun b => (next b).lifted := by
  obtain ⟨is, outcome⟩ := t
  cases outcome with
  | error fault => rfl
  | ok b => exact lifted_after is (next b)

theorem onlyMoves_after {is : List (Instruction α)} {t : Trace α β}
    (his : ∀ i ∈ is, ∃ p, i = .moveTo p) (ht : t.OnlyMoves) : (after is t).OnlyMoves := by
  intro i hi
  rcases List.mem_append.1 hi with hi | hi
  · exact his i hi
  · exact ht i hi

theorem onlyMoves_andThen {t : Trace α β} {next : β → Trace α γ} (ht : t.OnlyMoves)
    (hn : ∀ b, (next b).OnlyMoves) : (t.andThen next).OnlyMoves := by
  obtain ⟨is, outcome⟩ := t
  cases outcome with
  | error fault => exact ht
  | ok b => exact onlyMoves_after ht (hn b)

theorem onlyMoves_done (b : β) : (done b : Trace α β).OnlyMoves := by
  intro i hi
  contradiction

theorem OnlyMoves.lines_eq_nil {t : Trace α β} (h : t.OnlyMoves) :
    t.instructions.filterMap Instruction.line? = [] := by
  rw [List.filterMap_eq_nil_iff]
  intro i hi
  obtain ⟨p, rfl⟩ := h i hi
  rfl

theorem points_after (is : List (Instruction α)) (t : Trace α β) :
    (after is t).points = is.filterMap Instruction.target? ++ t.points := List.filterMap_append

theorem points_lifted (t : Trace α β) : t.lifted.points = t.points := by
  simp only [points, instructions_lifted, List.filterMap_filterMap]
  apply List.filterMap_congr
  intro i _
  cases h : i.lifted? with
  | none => exact (Instruction.target?_of_lifted?_none h).symm
  | some j => exact Instruction.target?_of_lifted? h

end Trace

/-! ### A pass -/

theorem lifted_effect (mode : Mode) (c : Cursor α) (e : Effect α) :
    (e.instructions mode c).filterMap Instruction.lifted? = e.instructions .measure c := by
  cases e with
  | none => rfl
  | moved =>
    simp only [Effect.instructions, motion]
    split <;> rfl
  | captureClosed anchor => cases mode <;> rfl

theorem effect_measure_moves (c : Cursor α) (e : Effect α) :
    ∀ i ∈ e.instructions .measure c, ∃ p, i = .moveTo p := by
  intro i hi
  cases e with
  | none => contradiction
  | moved => exact ⟨c.position, List.mem_singleton.1 hi⟩
  | captureClosed anchor =>
    rcases List.mem_cons.1 hi with hi | hi
    · exact ⟨anchor, hi⟩
    · exact ⟨c.position, List.mem_singleton.1 hi⟩

theorem lifted_prologue (config : Config α) (mode : Mode) (start : Point α) :
    (prologue config mode start).filterMap Instruction.lifted?
      = prologue config .measure start := by
  cases mode <;> rfl

theorem lifted_epilogue (mode : Mode) :
    (epilogue mode : List (Instruction α)).filterMap Instruction.lifted? = epilogue .measure := by
  cases mode <;> rfl

variable [Scalar α]

theorem lifted_walk (step : Point α) (mode : Mode) (c : Cursor α) (tokens : List (Nat × Token)) :
    (walk step mode c tokens).lifted = walk step .measure c tokens := by
  induction tokens using tokens_induction generalizing c with
  | nil => rfl
  | invalid index token char rest ht =>
    simp only [walk_cons_invalid _ _ _ _ _ ht, Trace.lifted_fail]
  | valid index token rest ht ih =>
    simp only [walk_cons_valid _ _ _ _ _ ht, Trace.lifted_after]
    rw [lifted_effect, ih]

theorem onlyMoves_walk (step : Point α) (c : Cursor α) (tokens : List (Nat × Token)) :
    (walk step .measure c tokens).OnlyMoves := by
  induction tokens using tokens_induction generalizing c with
  | nil => exact Trace.onlyMoves_done c
  | invalid index token char rest ht =>
    rw [walk_cons_invalid _ _ _ _ _ ht]
    intro i hi
    contradiction
  | valid index token rest ht ih =>
    rw [walk_cons_valid _ _ _ _ _ ht]
    exact Trace.onlyMoves_after (effect_measure_moves _ _) (ih _)

theorem lifted_execute (config : Config α) (start : Point α) (pattern : String) (mode : Mode) :
    (execute config start pattern mode).lifted = execute config start pattern .measure := by
  simp only [execute_eq, Trace.lifted_after, Trace.lifted_andThen, lifted_prologue, lifted_walk,
    lifted_epilogue, Trace.lifted_done]

theorem onlyMoves_execute (config : Config α) (start : Point α) (pattern : String) :
    (execute config start pattern .measure).OnlyMoves := by
  have hopen : ∀ i ∈ prologue config .measure start, ∃ p, i = .moveTo p := by
    intro i hi
    exact ⟨start, List.mem_singleton.1 hi⟩
  rw [execute_eq]
  apply Trace.onlyMoves_after hopen
  apply Trace.onlyMoves_andThen (onlyMoves_walk _ _ _)
  exact Trace.onlyMoves_done

/-! ### A run whose start may be centered -/

theorem startingPoint_of_centered (config : Config α) {start : Start α} (pattern : String)
    (h : start.x = .centered ∨ start.y = .centered) :
    startingPoint config start pattern
      = (execute config .origin pattern .measure).andThen fun c =>
        .done ⟨start.x.resolve (centering config c.bounds).x,
          start.y.resolve (centering config c.bounds).y⟩ := by
  have hnone : start.point? = none := by
    obtain ⟨x, y⟩ := start
    cases x with
    | centered => rfl
    | fixed v =>
      rcases h with h | h
      · contradiction
      · change y = .centered at h
        rw [h]
        rfl
  unfold startingPoint
  rw [hnone]
  rfl

theorem onlyMoves_startingPoint (config : Config α) (start : Start α) (pattern : String) :
    (startingPoint config start pattern).OnlyMoves := by
  unfold startingPoint
  split
  · exact Trace.onlyMoves_done _
  · apply Trace.onlyMoves_andThen (onlyMoves_execute _ _ _)
    intro c
    exact Trace.onlyMoves_done _

theorem lifted_startingPoint (config : Config α) (start : Start α) (pattern : String) :
    (startingPoint config start pattern).lifted = startingPoint config start pattern := by
  unfold startingPoint
  split
  · rfl
  · simp only [Trace.bind_eq_andThen, Trace.lifted_andThen, lifted_execute, Trace.pure_eq_done,
      Trace.lifted_done]

theorem lifted_run (config : Config α) (start : Start α) (pattern : String) (mode : Mode) :
    (run config start pattern mode).lifted = run config start pattern .measure := by
  simp only [run, Trace.bind_eq_andThen, Trace.lifted_andThen, lifted_startingPoint,
    lifted_execute]

theorem onlyMoves_run (config : Config α) (start : Start α) (pattern : String) :
    (run config start pattern .measure).OnlyMoves := by
  apply Trace.onlyMoves_andThen (onlyMoves_startingPoint _ _ _)
  intro point
  exact onlyMoves_execute _ _ _

theorem interpret_eq (config : Config α) (start : Start α) (pattern : String) (mode : Mode) :
    interpret config start pattern mode
      = (run config start pattern mode).andThen fun c => .done (match mode with
        | .draw => none
        | .measure => some c.bounds) := rfl

theorem draw_eq (config : Config α) (start : Start α) (pattern : String) :
    draw config start pattern = (run config start pattern .draw).andThen fun _ => .done () := by
  simp only [draw, interpret, Trace.bind_eq_andThen, Trace.pure_eq_done, Trace.andThen_andThen,
    Trace.done_andThen]

theorem measure_eq (config : Config α) (start : Start α) (pattern : String) :
    measure config start pattern
      = (run config start pattern .measure).andThen fun c => .done c.bounds := rfl

theorem interpret_measure (config : Config α) (start : Start α) (pattern : String) :
    interpret config start pattern .measure
      = (measure config start pattern).andThen fun box => .done (some box) := by
  simp only [interpret, measure_eq, Trace.bind_eq_andThen, Trace.pure_eq_done,
    Trace.andThen_andThen, Trace.done_andThen]

theorem instructions_interpret (config : Config α) (start : Start α) (pattern : String)
    (mode : Mode) :
    (interpret config start pattern mode).instructions
      = (run config start pattern mode).instructions := by
  rw [interpret_eq, Trace.instructions_andThen_done]

theorem instructions_draw (config : Config α) (start : Start α) (pattern : String) :
    (draw config start pattern).instructions = (run config start pattern .draw).instructions := by
  rw [draw_eq, Trace.instructions_andThen_done]

theorem instructions_measure (config : Config α) (start : Start α) (pattern : String) :
    (measure config start pattern).instructions
      = (run config start pattern .measure).instructions := by
  rw [measure_eq, Trace.instructions_andThen_done]

theorem onlyMoves_measure (config : Config α) (start : Start α) (pattern : String) :
    (measure config start pattern).OnlyMoves := by
  intro i hi
  rw [instructions_measure] at hi
  exact onlyMoves_run config start pattern i hi

/-- Drawing and measuring are one run: a measuring run ends as the drawing run
does, in the same cursor or on the same fault, and records the lifted drawing;
so it is for every entry point, and no measuring entry point records anything
but moves. -/
theorem measure_is_lifted_draw (config : Config α) (pattern : String) :
    (∀ point : Point α,
      (execute config point pattern .measure).outcome
          = (execute config point pattern .draw).outcome ∧
        (execute config point pattern .measure).instructions
          = (execute config point pattern .draw).instructions.filterMap Instruction.lifted?) ∧
    (∀ start : Start α,
      (run config start pattern .measure).outcome = (run config start pattern .draw).outcome ∧
        (measure config start pattern).outcome
          = (run config start pattern .draw).outcome.map Cursor.bounds ∧
        (draw config start pattern).outcome
          = (measure config start pattern).outcome.map (fun _ => ()) ∧
        (measure config start pattern).instructions
          = (draw config start pattern).instructions.filterMap Instruction.lifted?) ∧
    (∀ start : Start α,
      (interpret config start pattern .measure).outcome
          = (measure config start pattern).outcome.map some ∧
        (interpret config start pattern .measure).instructions
          = (measure config start pattern).instructions) ∧
    (∀ point : Point α, (execute config point pattern .measure).OnlyMoves) ∧
    ∀ start : Start α,
      (interpret config start pattern .measure).OnlyMoves ∧
        (measure config start pattern).OnlyMoves := by
  have hpass (point : Point α) := lifted_execute config point pattern .draw
  have hrun (start : Start α) := lifted_run config start pattern .draw
  have hbounds (start : Start α) : (measure config start pattern).outcome
      = (run config start pattern .draw).outcome.map Cursor.bounds := by
    rw [measure_eq, Trace.outcome_andThen_done, ← hrun start, Trace.outcome_lifted]
  have hmoves (start : Start α) := onlyMoves_measure config start pattern
  refine ⟨?_, ?_, ?_, fun point => onlyMoves_execute config point pattern, ?_⟩
  · intro point
    rw [← hpass point]
    exact ⟨rfl, rfl⟩
  · intro start
    refine ⟨?_, hbounds start, ?_, ?_⟩
    · rw [← hrun start, Trace.outcome_lifted]
    · rw [hbounds start, draw_eq, Trace.outcome_andThen_done]
      cases (run config start pattern .draw).outcome <;> rfl
    · rw [instructions_measure, instructions_draw, ← hrun start, Trace.instructions_lifted]
  · intro start
    rw [interpret_measure, Trace.outcome_andThen_done, Trace.instructions_andThen_done]
    exact ⟨rfl, rfl⟩
  · intro start
    refine ⟨?_, hmoves start⟩
    rw [interpret_measure]
    apply Trace.onlyMoves_andThen (hmoves start)
    intro box
    exact Trace.onlyMoves_done (some box)

end LineArt
