import LineArt.Proofs.Extent
import LineArt.Proofs.Regions

/-!
# Marks are presentational

Parentheses and square brackets say how a way is shown, not where it leads.  Without them
a run takes the same way, also where they stand inside a number or are not balanced: it
visits the same points, less the two that each closing bracket of an open region shows.
-/

namespace LineArt

variable {α β γ : Type}

/-! ### Texts without marks -/

def marks : List Char := parentheses ++ brackets

def unmarked (pattern : String) : String :=
  String.ofList (pattern.toList.filter (· ∉ marks))

/-! ### Points of connectors -/

/-- The items that are not flagged. -/
def unflagged : List Bool → List β → List β
  | false :: flags, x :: xs => x :: unflagged flags xs
  | true :: flags, _ :: xs => unflagged flags xs
  | _, _ => []

theorem unflagged_append {flags : List Bool} {xs : List β} (h : xs.length = flags.length)
    (flags' : List Bool) (ys : List β) :
    unflagged (flags ++ flags') (xs ++ ys) = unflagged flags xs ++ unflagged flags' ys := by
  induction flags generalizing xs with
  | nil =>
    obtain rfl := List.length_eq_zero_iff.1 h
    rfl
  | cons flag flags ih =>
    cases xs with
    | nil => contradiction
    | cons x xs =>
      have hrest := ih (Nat.succ.inj h)
      cases flag
      · exact congrArg (x :: ·) hrest
      · exact hrest

theorem unflagged_replicate (flag : Bool) (xs : List β) :
    unflagged (List.replicate xs.length flag) xs = if flag then [] else xs := by
  induction xs with
  | nil => cases flag <;> rfl
  | cons x xs ih =>
    cases flag
    · exact congrArg (x :: ·) ih
    · exact ih

/-- A flag for each point that some characters show, by the text before them: it is set for
the points of connectors. -/
def connectorFlags (before : List Char) : List Char → List Bool
  | [] => []
  | c :: rest =>
    List.replicate (kindsAt before c).length (c == ']') ++ connectorFlags (before ++ [c]) rest

/-- The flags of a pass: its start comes first and is on no connector. -/
def passFlags (pattern : String) : List Bool := false :: connectorFlags [] pattern.toList

/-- The flags of a run: one that is centered on some axis takes a pass to find its start. -/
def runFlags (start : Start α) (pattern : String) : List Bool :=
  (if start.point?.isSome then [] else passFlags pattern) ++ passFlags pattern

/-- Traces that succeed, the second with the result of the first as `f` changes it, and that
visit the same points, less the flagged ones. -/
structure Trace.LosesFlagged (flags : List Bool) (f : β → β) (t u : Trace α β) : Prop where
  outcome : ∃ b, t.outcome = .ok b ∧ u.outcome = .ok (f b)
  counted : t.points.length = flags.length
  points : u.points = unflagged flags t.points

section Traces

variable {flags flags' : List Bool} {f : β → β} {t u : Trace α β}

theorem Trace.losesFlagged_done (f : β → β) (b : β) :
    (done b : Trace α β).LosesFlagged [] f (done (f b)) :=
  ⟨⟨b, rfl, rfl⟩, rfl, rfl⟩

theorem Trace.LosesFlagged.after (h : t.LosesFlagged flags f u) {is js : List (Instruction α)}
    (hcounted : (is.filterMap Instruction.target?).length = flags'.length)
    (hpoints : js.filterMap Instruction.target?
      = unflagged flags' (is.filterMap Instruction.target?)) :
    (after is t).LosesFlagged (flags' ++ flags) f (after js u) where
  outcome := h.outcome
  counted := by
    rw [points_after, List.length_append, List.length_append, hcounted, h.counted]
  points := by
    rw [points_after, points_after, unflagged_append hcounted, hpoints, h.points]

theorem Trace.LosesFlagged.after_flagged (h : t.LosesFlagged flags f u)
    {is : List (Instruction α)}
    (hcounted : (is.filterMap Instruction.target?).length = flags'.length)
    (hflagged : unflagged flags' (is.filterMap Instruction.target?) = []) :
    (Trace.after is t).LosesFlagged (flags' ++ flags) f u := by
  have hafter : (Trace.after is t).LosesFlagged (flags' ++ flags) f (Trace.after [] u) :=
    h.after hcounted hflagged.symm
  exact hafter

theorem Trace.LosesFlagged.andThen {g : γ → γ} {next next' : β → Trace α γ}
    (h : t.LosesFlagged flags f u)
    (hnext : ∀ b, (next b).LosesFlagged flags' g (next' (f b))) :
    (t.andThen next).LosesFlagged (flags ++ flags') g (u.andThen next') := by
  obtain ⟨⟨b, ht, hu⟩, hcounted, hpoints⟩ := h
  rw [Trace.andThen, ht, Trace.andThen, hu]
  exact (hnext b).after hcounted hpoints

/-- What is told of the result may well not depend on what `f` changes. -/
theorem Trace.LosesFlagged.andThen_done (h : t.LosesFlagged flags f u) {g : β → γ}
    (hg : ∀ b, g (f b) = g b) :
    (t.andThen fun b => done (g b)).LosesFlagged flags id (u.andThen fun b => done (g b)) := by
  have hnext (b : β) : (done (g b) : Trace α γ).LosesFlagged [] id (done (g (f b))) := by
    rw [hg]
    exact losesFlagged_done id (g b)
  have hboth : (t.andThen fun b => done (g b)).LosesFlagged (flags ++ []) id
      (u.andThen fun b => done (g b)) := h.andThen hnext
  rwa [List.append_nil] at hboth

end Traces

/-! ### Cursors without marks -/

namespace Cursor

/-- A cursor as it is with the pen down and no region open. -/
def bare (c : Cursor α) : Cursor α := { c with pen := .draw, anchor := none }

theorem points_bare (c : Cursor α) (e : Effect α) : e.points c.bare = e.points c := by
  cases e <;> rfl

variable [Scalar α]

/-- A mark changes the pen or the anchor and nothing else. -/
theorem bare_apply_of_mem (c : Cursor α) {char : Char} (h : char ∈ marks) (step : Point α) :
    (c.apply (Token.ofChar char) step).1.bare = c.bare := by
  have hmark : char = '(' ∨ char = ')' ∨ char = '[' ∨ char = ']' := by
    simpa [marks, parentheses, brackets] using h
  rcases hmark with rfl | rfl | rfl | rfl
  · rfl
  · rfl
  · rfl
  · show (c.apply (.capture .closing) step).1.bare = c.bare
    simp only [apply]
    split <;> rfl

/-- Every other character does the same whatever the pen and the anchor are. -/
theorem bare_apply_of_not_mem (c : Cursor α) {char : Char} (h : char ∉ marks) (step : Point α) :
    c.bare.apply (Token.ofChar char) step
      = ((c.apply (Token.ofChar char) step).1.bare, (c.apply (Token.ofChar char) step).2) := by
  have hspells := spells_ofChar char
  generalize Token.ofChar char = token at hspells ⊢
  cases hspells with
  | lift => exact absurd (by decide) h
  | lower => exact absurd (by decide) h
  | enter => exact absurd (by decide) h
  | leave => exact absurd (by decide) h
  | define hlower =>
    simp only [apply]
    split <;> rfl
  | jump hupper =>
    have hwaypoint : c.bare.waypoint char.toLower = c.waypoint char.toLower := rfl
    simp only [apply, hwaypoint]
    split <;> rfl
  | _ => rfl

variable {c : Cursor α} {before : List Char}

theorem kindsAt_of_mark (before : List Char) {c : Char} (hmark : c ∈ marks) (hclose : c ≠ ']') :
    kindsAt before c = [] := by
  have hother : c = '(' ∨ c = ')' ∨ c = '[' := by
    simpa [marks, parentheses, brackets, hclose] using hmark
  rcases hother with rfl | rfl | rfl <;> rfl

/-- A character shows as many points as the text before it tells. -/
theorem Reflects.length_points_apply (h : c.Reflects before) {char : Char} (step : Point α)
    (hchar : InAlphabet char) :
    ((c.apply (Token.ofChar char) step).2.points (c.apply (Token.ofChar char) step).1).length
      = (kindsAt before char).length := by
  rw [← h.kinds_apply step hchar, List.length_map]
  generalize (c.apply (Token.ofChar char) step).1 = next
  cases (c.apply (Token.ofChar char) step).2 <;> rfl

/-- The walk over a text without its marks goes the same way, cursor by cursor: at a mark
the longer walk stands still, and shows at most a connector. -/
theorem Reflects.losesFlagged_walk (h : c.Reflects before) (step : Point α) (mode : Mode)
    (index index' : ℕ) {cs : List Char} (hcs : ∀ char ∈ cs, InAlphabet char) :
    (walk step mode c (tokensFrom index cs)).LosesFlagged (connectorFlags before cs) bare
      (walk step mode c.bare (tokensFrom index' (cs.filter (· ∉ marks)))) := by
  induction cs generalizing c before index index' with
  | nil => exact Trace.losesFlagged_done bare c
  | cons char cs ih =>
    obtain ⟨hchar, hrest⟩ := List.forall_mem_cons.1 hcs
    have hvalid := invalid?_ofChar_of_mem hchar
    have hcounted := h.length_points_apply step hchar
    rw [tokensFrom_cons, walk_cons_valid _ _ _ _ _ hvalid, connectorFlags, ← hcounted]
    by_cases hmark : char ∈ marks
    · have hnext := ih (h.apply char step) (index + 1) index' hrest
      rw [c.bare_apply_of_mem hmark step] at hnext
      rw [List.filter_cons_of_neg (by simpa using hmark)]
      apply hnext.after_flagged
      · rw [points_effect, List.length_replicate]
      · rw [points_effect, unflagged_replicate, ite_eq_left_iff, ← List.length_eq_zero_iff,
          hcounted, List.length_eq_zero_iff]
        intro hclose
        exact kindsAt_of_mark before hmark (by simpa using hclose)
    · have hne : ']' ≠ char := ne_of_mem_of_not_mem (by decide) hmark
      have hclose : (char == ']') = false := beq_eq_false_iff_ne.2 hne.symm
      have hnext := ih (h.apply char step) (index + 1) (index' + 1) hrest
      rw [List.filter_cons_of_pos (by simpa using hmark), tokensFrom_cons,
        walk_cons_valid _ _ _ _ _ hvalid, c.bare_apply_of_not_mem hmark step]
      apply hnext.after
      · rw [points_effect, List.length_replicate]
      · rw [points_effect, points_effect, unflagged_replicate, hclose, points_bare]
        rfl

end Cursor

/-! ### Whole runs -/

section Ends

variable {flags : List Bool} {f : β → β} {t u : Trace α β}

theorem Trace.LosesFlagged.opened (h : t.LosesFlagged flags f u) (config : Config α) (mode : Mode)
    (start : Point α) :
    (Trace.after (prologue config mode start) t).LosesFlagged (false :: flags) f
      (Trace.after (prologue config mode start) u) := by
  have hshown := points_prologue config mode start
  have hcounted : ((prologue config mode start).filterMap Instruction.target?).length
      = [false].length := by
    rw [hshown]
    rfl
  refine h.after hcounted ?_
  rw [hshown]
  rfl

theorem Trace.LosesFlagged.closed (h : t.LosesFlagged flags f u) (mode : Mode) :
    (t.andThen fun b => Trace.after (epilogue mode) (done b)).LosesFlagged flags f
      (u.andThen fun b => Trace.after (epilogue mode) (done b)) := by
  have hend (b : β) : (Trace.after (epilogue mode) (done b) : Trace α β).LosesFlagged [] f
      (Trace.after (epilogue mode) (done (f b))) := by
    refine ⟨⟨b, rfl, rfl⟩, ?_, ?_⟩
    · cases mode <;> rfl
    · cases mode <;> rfl
  have hboth : (t.andThen fun b => Trace.after (epilogue mode) (done b)).LosesFlagged
      (flags ++ []) f (u.andThen fun b => Trace.after (epilogue mode) (done b)) := h.andThen hend
  rwa [List.append_nil] at hboth

end Ends

section Runs

variable [Scalar α] (config : Config α) {pattern : String}

theorem losesFlagged_execute (point : Point α) (mode : Mode) (hvalid : validate pattern = .ok ()) :
    (execute config point pattern mode).LosesFlagged (passFlags pattern) Cursor.bare
      (execute config point (unmarked pattern) mode) := by
  have hchars := (validate_eq_ok_iff_inAlphabet pattern).1 hvalid
  have hwalk := (Cursor.reflects_start point).losesFlagged_walk config.step mode 0 0 hchars
  rw [execute_eq, execute_eq, tokenize, tokenize, unmarked, String.toList_ofList]
  exact (hwalk.closed mode).opened config mode point

/-- The bounds found are the same, so the second pass starts at the same point. -/
theorem losesFlagged_startingPoint (start : Start α) (hvalid : validate pattern = .ok ()) :
    (startingPoint config start pattern).LosesFlagged
      (if start.point?.isSome then [] else passFlags pattern) id
      (startingPoint config start (unmarked pattern)) := by
  unfold startingPoint
  cases start.point? with
  | some point => exact Trace.losesFlagged_done id point
  | none =>
    apply (losesFlagged_execute config .origin .measure hvalid).andThen_done
    intro c
    rfl

theorem losesFlagged_run (start : Start α) (mode : Mode) (hvalid : validate pattern = .ok ()) :
    (run config start pattern mode).LosesFlagged (runFlags start pattern) Cursor.bare
      (run config start (unmarked pattern) mode) := by
  apply (losesFlagged_startingPoint config start hvalid).andThen
  intro point
  exact losesFlagged_execute config point mode hvalid

/-- A valid pattern without its parentheses and square brackets takes the same way.  From any
start and in either mode the final cursor differs in its pen and its anchor alone, what an
entry point returns does not differ, and the points visited are the same in the same order,
less the two that each closing bracket of an open region shows. -/
theorem marks_are_presentational (hvalid : validate pattern = .ok ()) :
    (∀ point mode, (execute config point pattern mode).LosesFlagged (passFlags pattern)
      Cursor.bare (execute config point (unmarked pattern) mode)) ∧
    (∀ start mode, (run config start pattern mode).LosesFlagged (runFlags start pattern)
      Cursor.bare (run config start (unmarked pattern) mode)) ∧
    (∀ start mode, (interpret config start pattern mode).LosesFlagged (runFlags start pattern)
      id (interpret config start (unmarked pattern) mode)) ∧
    (∀ start, (draw config start pattern).LosesFlagged (runFlags start pattern)
      id (draw config start (unmarked pattern))) ∧
    ∀ start, (measure config start pattern).LosesFlagged (runFlags start pattern)
      id (measure config start (unmarked pattern)) := by
  have hrun (start : Start α) (mode : Mode) := losesFlagged_run config start mode hvalid
  refine ⟨fun point mode => losesFlagged_execute config point mode hvalid, hrun, ?_, ?_, ?_⟩
  · intro start mode
    rw [interpret_eq, interpret_eq]
    apply (hrun start mode).andThen_done
    intro c
    rfl
  · intro start
    rw [draw_eq, draw_eq]
    apply (hrun start .draw).andThen_done
    intro c
    rfl
  · intro start
    rw [measure_eq, measure_eq]
    apply (hrun start .measure).andThen_done
    intro c
    rfl

/-- The law at marks between the digits of a count, a region entered twice, and a closing
mark of each pair that closes nothing. -/
theorem bend_without_marks :
    (execute (.standard : Config Float32) .origin "a1(0.[2[|])5-A]" .draw).LosesFlagged
        [false, false, false, true, true, false, false] Cursor.bare
        (execute .standard .origin "a10.2|5-A" .draw) ∧
      (measure (.standard : Config Float32) .centered "a1(0.[2[|])5-A]").LosesFlagged
        (runFlags (.centered : Start Float32) "a1(0.[2[|])5-A]") id
        (measure .standard .centered "a10.2|5-A") := by
  have hvalid : validate "a1(0.[2[|])5-A]" = .ok () := (validate_eq_ok_iff _).2 (by decide +kernel)
  have htext : unmarked "a1(0.[2[|])5-A]" = "a10.2|5-A" := by decide +kernel
  have hflags : passFlags "a1(0.[2[|])5-A]" = [false, false, false, true, true, false, false] := by
    decide +kernel
  obtain ⟨hexecute, -, -, -, hmeasure⟩ :=
    marks_are_presentational (.standard : Config Float32) hvalid
  rw [htext] at hexecute hmeasure
  rw [hflags] at hexecute
  exact ⟨hexecute .origin .draw, hmeasure .centered⟩

end Runs

end LineArt
