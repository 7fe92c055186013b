import LineArt.Proofs.Lifting
import LineArt.Proofs.Regions
import Mathlib.Data.Nat.Count

/-!
# Inert characters

White space does nothing, and a capital whose small letter was not written before it has
no point to jump to.  Such characters may be taken out of a pattern, as many as one likes
and wherever they stand: a run shows and returns the same, and a fault moves back by as
many places as were taken out before it.
-/

namespace LineArt

variable {α β γ : Type}

/-! ### Texts with characters taken out -/

/-- White space, or a capital whose small letter is not among the characters before it. -/
def Inert (before : List Char) (c : Char) : Prop :=
  c ∈ [' ', '\t', '\r', '\n'] ∨ c.isUpper ∧ c.toLower ∉ before

instance (before : List Char) (c : Char) : Decidable (Inert before c) :=
  inferInstanceAs (Decidable (_ ∨ _))

def InertAt (text : List Char) (place : ℕ) : Prop :=
  ∃ c ∈ text[place]?, Inert (text.take place) c

instance (text : List Char) (place : ℕ) : Decidable (InertAt text place) :=
  decidable_of_iff ((text[place]?).any fun c => Inert (text.take place) c)
    (by simp [InertAt, Option.any_eq_true])

/-- What is left of some characters, numbered from `index`, without those at some places. -/
def removeFrom (places : Finset ℕ) (index : ℕ) : List Char → List Char
  | [] => []
  | c :: rest =>
    if index ∈ places then removeFrom places (index + 1) rest
    else c :: removeFrom places (index + 1) rest

def removeAt (places : Finset ℕ) (pattern : String) : String :=
  String.ofList (removeFrom places 0 pattern.toList)

theorem inert_of_inertAt {before rest : List Char} {c : Char}
    (h : InertAt (before ++ c :: rest) before.length) : Inert before c := by
  obtain ⟨d, hd, hinert⟩ := h
  rw [List.getElem?_append_right (Nat.le_refl _), Nat.sub_self, List.getElem?_cons_zero] at hd
  rw [List.take_left] at hinert
  exact Option.some.inj hd ▸ hinert

theorem Inert.inAlphabet {before : List Char} {c : Char} (h : Inert before c) : InAlphabet c := by
  rw [inAlphabet_iff]
  rcases h with hspace | ⟨hupper, -⟩
  · have hmem : c ∈ ['.', '-', '|', '/', '@', '(', ')', '[', ']', ' ', '\t', '\r', '\n'] :=
      List.mem_append_right ['.', '-', '|', '/', '@', '(', ')', '[', ']'] hspace
    exact .inr (.inr (.inr hmem))
  · exact .inr (.inr (.inl hupper))

/-! ### Outcomes with their fault moved -/

/-- Equal results, or one fault found earlier by the places taken out before it. -/
inductive OutcomesShift (places : Finset ℕ) :
    Except InvalidToken β → Except InvalidToken β → Prop where
  | ok (b : β) : OutcomesShift places (.ok b) (.ok b)
  | error (token : Char) {index index' : ℕ} (h : index = index' + Nat.count (· ∈ places) index) :
    OutcomesShift places (.error ⟨token, index⟩) (.error ⟨token, index'⟩)

/-- Traces that show the same and end alike, once the fault is moved. -/
structure Trace.Shifts (places : Finset ℕ) (t u : Trace α β) : Prop where
  instructions : u.instructions = t.instructions
  outcome : OutcomesShift places t.outcome u.outcome

section Traces

variable {places : Finset ℕ} {t u : Trace α β}

theorem Trace.shifts_done (b : β) : (done b : Trace α β).Shifts places (done b) := ⟨rfl, .ok b⟩

theorem Trace.Shifts.after (is : List (Instruction α)) (h : t.Shifts places u) :
    (after is t).Shifts places (after is u) :=
  ⟨congrArg (is ++ ·) h.instructions, h.outcome⟩

theorem Trace.Shifts.andThen {next next' : β → Trace α γ} (h : t.Shifts places u)
    (hnext : ∀ b, (next b).Shifts places (next' b)) :
    (t.andThen next).Shifts places (u.andThen next') := by
  obtain ⟨is, outcome⟩ := t
  obtain ⟨js, outcome'⟩ := u
  obtain ⟨his, hout⟩ := h
  subst his
  cases hout with
  | ok b => exact (hnext b).after js
  | error token h => exact ⟨rfl, .error token h⟩

theorem Trace.Shifts.andThen_done (h : t.Shifts places u) (f : β → γ) :
    (t.andThen fun b => done (f b)).Shifts places (u.andThen fun b => done (f b)) :=
  h.andThen fun b => shifts_done (f b)

end Traces

variable [Scalar α]

/-! ### One pass -/

section Walk

variable {places : Finset ℕ} {c : Cursor α} {before : List Char}

theorem Cursor.Reflects.apply_of_inert (h : c.Reflects before) {char : Char}
    (hchar : Inert before char) (step : Point α) :
    c.apply (Token.ofChar char) step = (c, .none) := by
  rcases hchar with hspace | ⟨hupper, hunbound⟩
  · simp only [List.mem_cons, List.not_mem_nil, or_false] at hspace
    rcases hspace with rfl | rfl | rfl | rfl <;> rfl
  · have hlower := isLower_toLower hupper
    have hnone : c.waypoint char.toLower = none := by
      rw [← Option.not_isSome_iff_eq_none, h.waypoint]
      exact fun hbound => hunbound hbound.2
    rw [ofChar_of_isUpper hupper]
    simp only [Cursor.apply, hnone]

/-- The walk over a text without some inert characters goes the same way, cursor by cursor:
at a character taken out the longer walk stands still. -/
theorem Cursor.Reflects.shifts_walk (h : c.Reflects before) (step : Point α) (mode : Mode)
    {cs : List Char} (hinert : ∀ place ∈ places, InertAt (before ++ cs) place) {index : ℕ}
    (hindex : before.length = index + Nat.count (· ∈ places) before.length) :
    (walk step mode c (tokensFrom before.length cs)).Shifts places
      (walk step mode c (tokensFrom index (removeFrom places before.length cs))) := by
  induction cs generalizing c before index with
  | nil => exact Trace.shifts_done c
  | cons char cs ih =>
    have htext : before ++ char :: cs = before ++ [char] ++ cs := List.append_cons before char cs
    have hlength : (before ++ [char]).length = before.length + 1 := List.length_append
    have hnext := h.apply char step
    rw [htext] at hinert
    rw [removeFrom, tokensFrom_cons, ← hlength]
    by_cases hplace : before.length ∈ places
    · have hcount : Nat.count (· ∈ places) (before ++ [char]).length
          = Nat.count (· ∈ places) before.length + 1 := by
        rw [hlength, Nat.count_succ, if_pos hplace]
      have hchar : Inert before char := inert_of_inertAt (htext ▸ hinert _ hplace)
      rw [h.apply_of_inert hchar step] at hnext
      rw [if_pos hplace, walk_cons_valid _ _ _ _ _ (invalid?_ofChar_of_mem hchar.inAlphabet),
        h.apply_of_inert hchar step]
      exact ih hnext hinert (by omega)
    · have hcount : Nat.count (· ∈ places) (before ++ [char]).length
          = Nat.count (· ∈ places) before.length := by
        rw [hlength, Nat.count_succ, if_neg hplace, Nat.add_zero]
      rw [if_neg hplace, tokensFrom_cons]
      cases htoken : (Token.ofChar char).invalid? with
      | some token =>
        rw [walk_cons_invalid _ _ _ _ _ htoken, walk_cons_invalid _ _ _ _ _ htoken]
        exact ⟨rfl, .error token hindex⟩
      | none =>
        rw [walk_cons_valid _ _ _ _ _ htoken, walk_cons_valid _ _ _ _ _ htoken]
        exact (ih hnext hinert (by omega)).after _

end Walk

/-! ### Whole runs -/

section Runs

variable (config : Config α) {pattern : String} {places : Finset ℕ}

theorem shifts_execute (point : Point α) (mode : Mode)
    (hinert : ∀ place ∈ places, InertAt pattern.toList place) :
    (execute config point pattern mode).Shifts places
      (execute config point (removeAt places pattern) mode) := by
  have hwalk : (walk config.step mode (.start point) (tokenize pattern)).Shifts places
      (walk config.step mode (.start point) (tokenize (removeAt places pattern))) := by
    rw [tokenize, tokenize, removeAt, String.toList_ofList]
    exact (Cursor.reflects_start point).shifts_walk config.step mode hinert
      (Nat.count_zero (· ∈ places)).symm
  rw [execute_eq, execute_eq]
  exact (hwalk.andThen fun c => (Trace.shifts_done c).after _).after _

theorem shifts_run (start : Start α) (mode : Mode)
    (hinert : ∀ place ∈ places, InertAt pattern.toList place) :
    (run config start pattern mode).Shifts places
      (run config start (removeAt places pattern) mode) := by
  have hpoint : (startingPoint config start pattern).Shifts places
      (startingPoint config start (removeAt places pattern)) := by
    unfold startingPoint
    cases start.point? with
    | some point => exact Trace.shifts_done point
    | none => exact (shifts_execute config .origin .measure hinert).andThen_done _
  exact hpoint.andThen fun point => shifts_execute config point mode hinert

/-- Inert characters may be taken out of a pattern at any places.  Every entry point, from
any start and in either mode, records just what it does with them, and returns the same or
fails on the same character, its place counted without those taken out before it. -/
theorem inert_characters_change_nothing (config : Config α) (pattern : String)
    (places : Finset ℕ) (hinert : ∀ place ∈ places, InertAt pattern.toList place) :
    (∀ point mode, (execute config point pattern mode).Shifts places
      (execute config point (removeAt places pattern) mode)) ∧
    (∀ start mode, (run config start pattern mode).Shifts places
      (run config start (removeAt places pattern) mode)) ∧
    (∀ start mode, (interpret config start pattern mode).Shifts places
      (interpret config start (removeAt places pattern) mode)) ∧
    (∀ start, (draw config start pattern).Shifts places
      (draw config start (removeAt places pattern))) ∧
    ∀ start, (measure config start pattern).Shifts places
      (measure config start (removeAt places pattern)) := by
  have hrun (start : Start α) (mode : Mode) := shifts_run config start mode hinert
  refine ⟨fun point mode => shifts_execute config point mode hinert, hrun, ?_, ?_, ?_⟩
  · intro start mode
    rw [interpret_eq, interpret_eq]
    exact (hrun start mode).andThen_done _
  · intro start
    rw [draw_eq, draw_eq]
    exact (hrun start .draw).andThen_done _
  · intro start
    rw [measure_eq, measure_eq]
    exact (hrun start .measure).andThen_done _

/-- The law at blanks and unbound jumps between the digits of a count and inside both
regions, before a bad character. -/
theorem bend_without_inert_characters :
    (draw (.standard : Config Float32) .centered "1 Z0.[\tB b(2|B)]#").Shifts {1, 2, 6, 7, 8}
        (draw .standard .centered "10.[b(2|B)]#") ∧
      (execute (.standard : Config Float32) .origin "1 Z0.[\tB b(2|B)]#" .draw).Shifts
        {1, 2, 6, 7, 8} (execute .standard .origin "10.[b(2|B)]#" .draw) := by
  have hinert : ∀ place ∈ ({1, 2, 6, 7, 8} : Finset ℕ),
      InertAt "1 Z0.[\tB b(2|B)]#".toList place := by decide +kernel
  have htext : removeAt {1, 2, 6, 7, 8} "1 Z0.[\tB b(2|B)]#" = "10.[b(2|B)]#" := by decide +kernel
  obtain ⟨hexecute, -, -, hdraw, -⟩ := inert_characters_change_nothing
    (.standard : Config Float32) "1 Z0.[\tB b(2|B)]#" {1, 2, 6, 7, 8} hinert
  rw [htext] at hexecute hdraw
  exact ⟨hdraw .centered, hexecute .origin .draw⟩

end Runs

end LineArt
