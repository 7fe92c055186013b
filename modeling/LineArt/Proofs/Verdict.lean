import LineArt.Proofs.Alphabet
import LineArt.Proofs.Lifting

/-!
# One verdict for every entry point

Validation, a pass from a point and a run that first measures all judge a text
alike: they accept what is written in the alphabet, and otherwise name the same
first character outside.  A run may fail in its measuring pass; the fault is the
one its second pass would have met.
-/

namespace LineArt

variable {α β γ : Type}

namespace Trace

/-- Whether a trace succeeded, and the token it failed on if not. -/
def verdict (t : Trace α β) : Except InvalidToken Unit := t.outcome.map fun _ => ()

theorem verdict_andThen_done (t : Trace α β) (f : β → γ) :
    (t.andThen fun b => done (f b)).verdict = t.verdict := by
  unfold verdict
  rw [outcome_andThen_done]
  cases t.outcome <;> rfl

theorem exists_outcome_of_verdict {t : Trace α β} (h : t.verdict = .ok ()) :
    ∃ b, t.outcome = .ok b := by
  unfold verdict at h
  cases houtcome : t.outcome with
  | ok b => exact ⟨b, rfl⟩
  | error fault =>
    rw [houtcome] at h
    contradiction

/-- Two parts that can only fail alike, in sequence. -/
theorem verdict_andThen {t : Trace α β} {next : β → Trace α γ} {verdict : Except InvalidToken Unit}
    (ht : t.verdict = verdict ∨ t.verdict = .ok ()) (hnext : ∀ b, (next b).verdict = verdict) :
    (t.andThen next).verdict = verdict := by
  cases h : t.outcome with
  | ok b =>
    rw [Trace.verdict, outcome_andThen_of_ok next h]
    exact hnext b
  | error fault =>
    have hfault : t.verdict = .error fault := by rw [Trace.verdict, h]; rfl
    rw [hfault] at ht
    rw [Trace.verdict, outcome_andThen_of_error next h]
    rcases ht with ht | ht
    · exact ht
    · contradiction

end Trace

variable [Scalar α]

theorem verdict_execute (config : Config α) (start : Point α) (pattern : String) (mode : Mode) :
    (execute config start pattern mode).verdict = validate pattern := by
  unfold Trace.verdict validate
  rw [outcome_execute]
  cases h : firstInvalid? (tokenize pattern) with
  | some fault => rw [outcome_walk_of_invalid _ _ _ h]; rfl
  | none => rw [outcome_walk_of_valid _ _ _ h]; rfl

theorem verdict_startingPoint (config : Config α) (start : Start α) (pattern : String) :
    (startingPoint config start pattern).verdict = validate pattern ∨
      (startingPoint config start pattern).verdict = .ok () := by
  unfold startingPoint
  split
  · exact .inr rfl
  · left
    exact (Trace.verdict_andThen_done _ _).trans (verdict_execute config .origin pattern .measure)

theorem exists_startingPoint (config : Config α) (start : Start α) {pattern : String}
    (hvalid : validate pattern = .ok ()) :
    ∃ point, (startingPoint config start pattern).outcome = .ok point := by
  have hverdict := verdict_startingPoint config start pattern
  rw [hvalid, or_self, Trace.verdict] at hverdict
  cases h : (startingPoint config start pattern).outcome with
  | ok point => exact ⟨point, rfl⟩
  | error fault =>
    rw [h] at hverdict
    contradiction

theorem verdict_run (config : Config α) (start : Start α) (pattern : String) (mode : Mode) :
    (run config start pattern mode).verdict = validate pattern := by
  apply Trace.verdict_andThen (verdict_startingPoint config start pattern)
  intro point
  exact verdict_execute config point pattern mode

/-- A text is valid when it is written in the alphabet, and its fault is otherwise
its first character outside.  Every entry point, in either mode and from any start,
succeeds just then, and fails on that very fault. -/
theorem entry_points_agree_with_validate (pattern : String) :
    (validate pattern = .ok () ↔ ∀ c ∈ pattern.toList, InAlphabet c) ∧
    (∀ fault, validate pattern = .error fault ↔ FirstOutside pattern.toList fault) ∧
    ∀ config : Config α,
      (∀ point mode, (execute config point pattern mode).verdict = validate pattern) ∧
      (∀ start mode, (interpret config start pattern mode).verdict = validate pattern) ∧
      (∀ start, (draw config start pattern).verdict = validate pattern) ∧
      ∀ start, (measure config start pattern).verdict = validate pattern := by
  refine ⟨validate_eq_ok_iff_inAlphabet pattern, validate_eq_error_iff pattern, ?_⟩
  intro config
  refine ⟨fun point mode => verdict_execute config point pattern mode, ?_, ?_, ?_⟩
  · intro start mode
    rw [interpret_eq, Trace.verdict_andThen_done, verdict_run]
  · intro start
    rw [draw_eq, Trace.verdict_andThen_done, verdict_run]
  · intro start
    rw [measure_eq, Trace.verdict_andThen_done, verdict_run]

end LineArt
