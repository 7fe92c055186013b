import LineArt.Proofs.Containment
import LineArt.Proofs.Exact
import LineArt.Proofs.Multiplier
import LineArt.Proofs.Regions

/-!
# Repeat counts

A count before an axis move is a number of unit moves.  In exact arithmetic a pattern and
its unrolled text, with each move written out as often as it is counted and no digits left,
end alike: the points between the ends of a long move lie in the box already, and a move
counted zero times adds the position alone, which is in the box too.
-/

namespace LineArt

variable {α β γ : Type}

/-! ### Unrolled texts -/

/-- How often a move after some text is made: as its pending digits say, or once. -/
def repeatCount (before : List Char) : ℕ :=
  let digits := pendingDigits (before.map Token.ofChar)
  if digits = [] then 1 else hornerValue digits

/-- What is written for a character, by the text before it. -/
def unrolledAt (before : List Char) (c : Char) : List Char :=
  if c.isDigit then []
  else if c ∈ ['.', '-', '|', '/'] then List.replicate (repeatCount before) c
  else [c]

def unrolledAfter (before : List Char) : List Char → List Char
  | [] => []
  | c :: rest => unrolledAt before c ++ unrolledAfter (before ++ [c]) rest

/-- A pattern without its digits, each axis symbol repeated as often as it is counted. -/
def unrolled (pattern : String) : String := String.ofList (unrolledAfter [] pattern.toList)

/-- No run of pending digits spells a number above the greatest count. -/
def CountsFit (pattern : String) : Prop :=
  ∀ before ∈ pattern.toList.inits,
    hornerValue (pendingDigits (before.map Token.ofChar)) ≤ greatestCount

instance (pattern : String) : Decidable (CountsFit pattern) :=
  inferInstanceAs (Decidable (∀ before ∈ pattern.toList.inits, _))

theorem unrolledAt_of_isDigit (before : List Char) {c : Char} (h : c.isDigit) :
    unrolledAt before c = [] := if_pos h

theorem unrolledAt_symbol (before : List Char) (d : Direction) :
    unrolledAt before d.symbol = List.replicate (repeatCount before) d.symbol := by
  cases d <;> rfl

theorem unrolledAt_of_other (before : List Char) {c : Char} (hdigit : ¬ c.isDigit)
    (hsymbol : Direction.ofSymbol? c = none) : unrolledAt before c = [c] := by
  rw [unrolledAt, if_neg hdigit, if_neg (ofSymbol?_eq_none_iff.1 hsymbol)]

theorem mem_of_mem_unrolledAt {before : List Char} {c char : Char}
    (h : char ∈ unrolledAt before c) : char = c := by
  unfold unrolledAt at h
  split at h
  · contradiction
  split at h
  · exact List.eq_of_mem_replicate h
  · exact List.mem_singleton.1 h

theorem mem_of_mem_unrolledAfter {before cs : List Char} {char : Char}
    (h : char ∈ unrolledAfter before cs) : char ∈ cs := by
  induction cs generalizing before with
  | nil => exact h
  | cons c cs ih =>
    rcases List.mem_append.1 h with h | h
    · rw [mem_of_mem_unrolledAt h]
      exact List.mem_cons_self
    · exact List.mem_cons_of_mem c (ih h)

theorem validate_unrolled {pattern : String} (h : validate pattern = .ok ()) :
    validate (unrolled pattern) = .ok () := by
  rw [validate_eq_ok_iff_inAlphabet] at h ⊢
  rw [unrolled, String.toList_ofList]
  intro c hc
  exact h c (mem_of_mem_unrolledAfter hc)

/-! ### Exact boxes -/

instance : OrderedScalar ℚ where
  IsNumber _ := True
  le_total _ _ := le_total _ _
  le_trans _ _ _ := le_trans
  lt_iff_not_le _ _ := not_le.symm

namespace Bounds

variable {b : Bounds ℚ} {p : Point ℚ}

theorem insert_of_contains (h : b.Contains p) : b.insert p = b := by
  simp only [insert, Point.least, Point.greatest, least_eq_min, greatest_eq_max,
    min_eq_left h.min_x, min_eq_left h.min_y, max_eq_left h.max_x, max_eq_left h.max_y]

theorem contains_insert (b : Bounds ℚ) (p : Point ℚ) : (b.insert p).Contains p where
  min_x := (least_eq_min _ _).trans_le (min_le_right _ _)
  min_y := (least_eq_min _ _).trans_le (min_le_right _ _)
  max_x := (le_max_right _ _).trans_eq (greatest_eq_max _ _).symm
  max_y := (le_max_right _ _).trans_eq (greatest_eq_max _ _).symm

theorem insert_right_comm (b : Bounds ℚ) (p q : Point ℚ) :
    (b.insert p).insert q = (b.insert q).insert p := by
  simp only [insert, Point.least, Point.greatest, least_eq_min, greatest_eq_max,
    min_right_comm, max_right_comm]

end Bounds

/-- The first of several equal steps ends between the start and the last end. -/
theorem step_between (x u : ℚ) {n : ℚ} (hn : 0 ≤ n) :
    min x (x + u * (n + 1)) ≤ x + u * 1 ∧ x + u * 1 ≤ max x (x + u * (n + 1)) := by
  rcases le_total 0 u with hu | hu
  · have hfar : 0 ≤ u * n := mul_nonneg hu hn
    exact ⟨min_le_of_left_le (by linarith), le_max_of_le_right (by linarith)⟩
  · have hfar : u * n ≤ 0 := mul_nonpos_of_nonpos_of_nonneg hu hn
    exact ⟨min_le_of_right_le (by linarith), le_max_of_le_left (by linarith)⟩

/-- A box with a point of a line and a later one has those between. -/
theorem Bounds.Contains.insert_step {b : Bounds ℚ} {p : Point ℚ} (h : b.Contains p)
    (w : Point ℚ) {n : ℚ} (hn : 0 ≤ n) :
    (b.insert (p + w.scale (n + 1))).Contains (p + w.scale 1) := by
  obtain ⟨hxlow, hxhigh⟩ := step_between p.x w.x hn
  obtain ⟨hylow, hyhigh⟩ := step_between p.y w.y hn
  constructor
  · exact (least_eq_min _ _).trans_le ((min_le_min_right _ h.min_x).trans hxlow)
  · exact (least_eq_min _ _).trans_le ((min_le_min_right _ h.min_y).trans hylow)
  · exact (hxhigh.trans (max_le_max_right _ h.max_x)).trans_eq (greatest_eq_max _ _).symm
  · exact (hyhigh.trans (max_le_max_right _ h.max_y)).trans_eq (greatest_eq_max _ _).symm

/-! ### Cursors without a count -/

namespace Cursor

/-- A cursor as it is with no count pending. -/
def uncounted (c : Cursor α) : Cursor α := { c with multiplier := none }

/-- A cursor moved by a displacement, with its bounds grown. -/
def shift [Scalar α] (c : Cursor α) (v : Point α) : Cursor α :=
  { c with position := c.position + v, bounds := c.bounds.insert (c.position + v) }

/-- A token that is neither a digit nor a move does the same whatever count is pending. -/
theorem uncounted_apply [Scalar α] (c : Cursor α) {token : Token} (step : Point α)
    (hdigit : ∀ value, token ≠ .digit value) (haxis : ∀ d, token ≠ .axis d) :
    (c.uncounted.apply token step).1 = (c.apply token step).1.uncounted := by
  cases token with
  | digit value => exact absurd rfl (hdigit value)
  | axis d => exact absurd rfl (haxis d)
  | reset => rfl
  | waypoint name action =>
    cases action with
    | define =>
      simp only [apply]
      split <;> rfl
    | jump =>
      have hwaypoint : c.uncounted.waypoint name = c.waypoint name := rfl
      simp only [apply, hwaypoint]
      split <;> rfl
  | blank half => cases half <;> rfl
  | capture half =>
    cases half with
    | opening => rfl
    | closing =>
      have hanchor : c.uncounted.anchor = c.anchor := rfl
      simp only [apply, hanchor]
      split <;> rfl
  | space => rfl
  | invalid char => rfl

section Exact

variable {c : Cursor ℚ}

theorem shift_zero (h : c.bounds.Contains c.position) (w : Point ℚ) :
    c.shift (w.scale 0) = c := by
  have hstay : c.position + w.scale 0 = c.position := by
    have hzero (x u : ℚ) : x + u * 0 = x := by ring
    exact congrArg₂ Point.mk (hzero c.position.x w.x) (hzero c.position.y w.y)
  rw [shift, hstay, Bounds.insert_of_contains h]

theorem shift_shift (h : c.bounds.Contains c.position) (w : Point ℚ) {n : ℚ} (hn : 0 ≤ n) :
    (c.shift (w.scale 1)).shift (w.scale n) = c.shift (w.scale (n + 1)) := by
  have hline : c.position + w.scale 1 + w.scale n = c.position + w.scale (n + 1) := by
    have hsum (x u : ℚ) : x + u * 1 + u * n = x + u * (n + 1) := by ring
    exact congrArg₂ Point.mk (hsum c.position.x w.x) (hsum c.position.y w.y)
  simp only [shift, hline]
  -- With the far end in the box, the near one adds nothing.
  rw [Bounds.insert_right_comm, Bounds.insert_of_contains (h.insert_step w hn)]

theorem uncounted_apply_symbol (c : Cursor ℚ) (step : Point ℚ) (d : Direction) :
    (c.uncounted.apply (Token.ofChar d.symbol) step).1
      = (c.shift ((d.unit * step).scale 1)).uncounted := by
  have hone : (Scalar.ofCount 1 : ℚ) = 1 := Nat.cast_one
  have hadvance : (c.uncounted.apply (.axis d) step).1
      = (c.shift ((d.unit * step).scale (Scalar.ofCount 1))).uncounted := rfl
  rw [Token.ofChar_symbol, hadvance, hone]

/-- Unit moves one after the other are one long move. -/
theorem uncounted_read_replicate (h : c.bounds.Contains c.position) (step : Point ℚ)
    (d : Direction) (n : ℕ) :
    c.uncounted.read (List.replicate n d.symbol) step
      = (c.shift ((d.unit * step).scale n)).uncounted := by
  induction n generalizing c with
  | zero =>
    rw [Nat.cast_zero, shift_zero h]
    rfl
  | succ n ih =>
    rw [List.replicate_succ, read_cons, uncounted_apply_symbol, ih (Bounds.contains_insert _ _),
      shift_shift h _ n.cast_nonneg, Nat.cast_succ]

/-- The step: a character does what is written for it. -/
theorem uncounted_read_unrolledAt (h : c.bounds.Contains c.position) {before : List Char}
    (hcarries : c.Carries (pendingDigits (before.map Token.ofChar)))
    (hfit : hornerValue (pendingDigits (before.map Token.ofChar)) ≤ greatestCount)
    (char : Char) (step : Point ℚ) :
    c.uncounted.read (unrolledAt before char) step
      = (c.apply (Token.ofChar char) step).1.uncounted := by
  by_cases hdigit : char.isDigit
  · rw [unrolledAt_of_isDigit before hdigit, ofChar_of_isDigit hdigit]
    rfl
  cases hsymbol : Direction.ofSymbol? char with
  | some d =>
    obtain rfl := Direction.symbol_of_ofSymbol? hsymbol
    -- The count that is held is the one the text spells, since it can be held.
    have hcount : (Scalar.ofCount c.count : ℚ) = repeatCount before :=
      congrArg Nat.cast (hcarries.toNat_count hfit)
    rw [unrolledAt_symbol, uncounted_read_replicate h, Token.ofChar_symbol, ← hcount]
    rfl
  | none =>
    rw [unrolledAt_of_other before hdigit hsymbol, read_cons, read_nil]
    apply c.uncounted_apply step
    · intro value hvalue
      exact hdigit (isDigit_of_ofChar hvalue)
    · intro d hd
      rw [Token.ofSymbol?_of_ofChar hd] at hsymbol
      contradiction

/-- The run: a text does what its unrolled text does, but for the count it leaves. -/
theorem Kept.read_unrolledAfter {ps : List (Point ℚ)} (h : c.Kept ps) {before : List Char}
    (hcarries : c.Carries (pendingDigits (before.map Token.ofChar))) (step : Point ℚ)
    {cs : List Char}
    (hfit : ∀ more, more <+: cs →
      hornerValue (pendingDigits ((before ++ more).map Token.ofChar)) ≤ greatestCount) :
    c.uncounted.read (unrolledAfter before cs) step = (c.read cs step).uncounted := by
  induction cs generalizing c ps before with
  | nil => rfl
  | cons char cs ih =>
    have hnow := hfit [] List.nil_prefix
    rw [List.append_nil] at hnow
    -- What a cursor stores stays in its box, so the position is in it before each character.
    obtain ⟨qs, hnext⟩ := h.apply (Token.ofChar char) step ⟨trivial, trivial⟩
    have hcarried := hcarries.apply (Token.ofChar char) step
    rw [← pendingDigits_concat] at hcarried
    rw [unrolledAfter, read_append, uncounted_read_unrolledAt h.enclosed.position hcarries hnow,
      read_cons]
    apply ih hnext
    · rw [List.map_append]
      exact hcarried
    · intro more hmore
      have hlonger := hfit (char :: more) (List.cons_prefix_cons.2 ⟨rfl, hmore⟩)
      rwa [List.append_cons] at hlonger

end Exact

end Cursor

/-! ### Whole runs -/

/-- Traces that succeed, the second with the result of the first as `f` changes it. -/
def Trace.EndsAs (f : β → β) (t u : Trace α β) : Prop :=
  ∃ b, t.outcome = .ok b ∧ u.outcome = .ok (f b)

theorem Trace.EndsAs.andThen {f : β → β} {g : γ → γ} {t u : Trace α β} {next next' : β → Trace α γ}
    (h : t.EndsAs f u) (hnext : ∀ b, (next b).EndsAs g (next' (f b))) :
    (t.andThen next).EndsAs g (u.andThen next') := by
  obtain ⟨b, ht, hu⟩ := h
  obtain ⟨c, hc, hc'⟩ := hnext b
  exact ⟨c, (outcome_andThen_of_ok next ht).trans hc, (outcome_andThen_of_ok next' hu).trans hc'⟩

section Runs

variable (config : Config ℚ) {pattern : String}

theorem endsAs_execute (start : Point ℚ) (mode : Mode) (hvalid : validate pattern = .ok ())
    (hfit : CountsFit pattern) :
    (execute config start pattern mode).EndsAs Cursor.uncounted
      (execute config start (unrolled pattern) mode) := by
  have hkept : (Cursor.start start).Kept [start] := Cursor.Kept.start ⟨trivial, trivial⟩
  have hcarries : (Cursor.start start).Carries (pendingDigits (List.map Token.ofChar [])) :=
    Cursor.carries_start start
  have hread := hkept.read_unrolledAfter hcarries config.step
    fun more hmore => hfit more ((List.mem_inits more _).2 hmore)
  have hlong := (reaches_of_valid config start mode (validate_unrolled hvalid)).outcome
  rw [unrolled, String.toList_ofList] at hlong
  exact ⟨_, (reaches_of_valid config start mode hvalid).outcome,
    hlong.trans (congrArg Except.ok hread)⟩

theorem endsAs_startingPoint (start : Start ℚ) (hvalid : validate pattern = .ok ())
    (hfit : CountsFit pattern) :
    (startingPoint config start pattern).EndsAs id
      (startingPoint config start (unrolled pattern)) := by
  unfold startingPoint
  cases start.point? with
  | some point => exact ⟨point, rfl, rfl⟩
  | none =>
    apply (endsAs_execute config .origin .measure hvalid hfit).andThen
    intro c
    exact ⟨_, rfl, rfl⟩

/-- In exact arithmetic a count is how often a move is made.  A valid pattern whose counts can
be held, and its unrolled text, where each axis symbol stands as often as it is counted and
no digit is left, succeed alike from any start and in either mode, in cursors that differ in
the count left pending alone. -/
theorem counts_are_repetitions (hvalid : validate pattern = .ok ()) (hfit : CountsFit pattern) :
    (∀ start mode, ∃ c, (execute config start pattern mode).outcome = .ok c ∧
      (execute config start (unrolled pattern) mode).outcome
        = .ok { c with multiplier := none }) ∧
    ∀ start mode, ∃ c, (run config start pattern mode).outcome = .ok c ∧
      (run config start (unrolled pattern) mode).outcome = .ok { c with multiplier := none } := by
  refine ⟨fun start mode => endsAs_execute config start mode hvalid hfit, ?_⟩
  intro start mode
  apply (endsAs_startingPoint config start hvalid hfit).andThen
  intro point
  exact endsAs_execute config point mode hvalid hfit

/-- The law at counts of nought, of several digits and over marks, one that a reset drops and
one left at the end. -/
theorem bend_with_counts_written_out :
    (∃ c, (execute (.standard : Config ℚ) .origin "a1[2.0|b.(3/)A4@-]7" .draw).outcome = .ok c ∧
      (execute (.standard : Config ℚ) .origin "a[............b.(///)A@-]" .draw).outcome
        = .ok { c with multiplier := none }) ∧
    ∃ c, (run (.standard : Config ℚ) .centered "a1[2.0|b.(3/)A4@-]7" .measure).outcome = .ok c ∧
      (run (.standard : Config ℚ) .centered "a[............b.(///)A@-]" .measure).outcome
        = .ok { c with multiplier := none } := by
  have hvalid : validate "a1[2.0|b.(3/)A4@-]7" = .ok () :=
    (validate_eq_ok_iff _).2 (by decide +kernel)
  have hfit : CountsFit "a1[2.0|b.(3/)A4@-]7" := by decide +kernel
  have htext : unrolled "a1[2.0|b.(3/)A4@-]7" = "a[............b.(///)A@-]" := by decide +kernel
  obtain ⟨hexecute, hrun⟩ := counts_are_repetitions (.standard : Config ℚ) hvalid hfit
  rw [htext] at hexecute hrun
  exact ⟨hexecute .origin .draw, hrun .centered .measure⟩

end Runs

end LineArt
