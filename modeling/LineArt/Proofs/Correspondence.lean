import LineArt.Proofs.Walk
import Mathlib.Data.List.Forall2

/-!
# Corresponding runs

Two runs of one shape whose points correspond throughout.  A correspondence says
what one axis move and one growth of the bounds preserve; every other token only
copies points, so whole runs correspond: they end alike and record instructions
of the same kinds, in the same order, at corresponding points.
-/

namespace LineArt

variable {α β γ β' γ' : Type}

/-! ### Matching instructions, outcomes and cursors -/

/-- Instructions of one kind at corresponding points. -/
inductive Instruction.Matches (R : Point α → Point α → Prop) :
    Instruction α → Instruction α → Prop where
  | setStrokeStyle (color : String) (width : α) :
    Matches R (.setStrokeStyle color width) (.setStrokeStyle color width)
  | beginPath : Matches R .beginPath .beginPath
  | moveTo {p q : Point α} (h : R p q) : Matches R (.moveTo p) (.moveTo q)
  | lineTo {p q : Point α} (h : R p q) : Matches R (.lineTo p) (.lineTo q)
  | stroke : Matches R .stroke .stroke

inductive OutcomesMatch (S : β → γ → Prop) :
    Except InvalidToken β → Except InvalidToken γ → Prop where
  | ok {b : β} {c : γ} (h : S b c) : OutcomesMatch S (.ok b) (.ok c)
  | error (fault : InvalidToken) : OutcomesMatch S (.error fault) (.error fault)

/-- Traces that match instruction by instruction and end alike. -/
structure Trace.Matches (R : Point α → Point α → Prop) (S : β → γ → Prop) (t : Trace α β)
    (u : Trace α γ) : Prop where
  instructions : List.Forall₂ (Instruction.Matches R) t.instructions u.instructions
  outcome : OutcomesMatch S t.outcome u.outcome

/-- Cursors that hold corresponding points under equal pens and multipliers. -/
structure Cursor.Matches (R : Point α → Point α → Prop) (B : Bounds α → Bounds α → Prop)
    (c d : Cursor α) : Prop where
  position : R c.position d.position
  origin : R c.origin d.origin
  multiplier : d.multiplier = c.multiplier
  pen : d.pen = c.pen
  anchor : Option.Rel R c.anchor d.anchor
  waypoint : ∀ name, Option.Rel R (c.waypoint name) (d.waypoint name)
  bounds : B c.bounds d.bounds

inductive Effect.Matches (R : Point α → Point α → Prop) : Effect α → Effect α → Prop where
  | none : Matches R .none .none
  | moved : Matches R .moved .moved
  | captureClosed {p q : Point α} (h : R p q) : Matches R (.captureClosed p) (.captureClosed q)

section Traces

variable {R : Point α → Point α → Prop} {S : β → γ → Prop} {S' : β' → γ' → Prop}

theorem Trace.matches_done {b : β} {c : γ} (h : S b c) :
    Trace.Matches R S (.done b) (.done c) := ⟨.nil, .ok h⟩

theorem Trace.matches_fail (fault : InvalidToken) :
    Trace.Matches R S (.fail fault) (.fail fault) := ⟨.nil, .error fault⟩

theorem Trace.Matches.after {is js : List (Instruction α)} {t : Trace α β} {u : Trace α γ}
    (his : List.Forall₂ (Instruction.Matches R) is js) (h : Trace.Matches R S t u) :
    Trace.Matches R S (.after is t) (.after js u) :=
  ⟨List.rel_append his h.instructions, h.outcome⟩

theorem Trace.Matches.andThen {t : Trace α β} {u : Trace α γ} {next : β → Trace α β'}
    {next' : γ → Trace α γ'} (h : Trace.Matches R S t u)
    (hnext : ∀ b c, S b c → Trace.Matches R S' (next b) (next' c)) :
    Trace.Matches R S' (t.andThen next) (u.andThen next') := by
  obtain ⟨is, outcome⟩ := t
  obtain ⟨js, outcome'⟩ := u
  obtain ⟨his, hout⟩ := h
  cases hout with
  | ok hbc => exact (hnext _ _ hbc).after his
  | error fault => exact ⟨his, .error fault⟩

end Traces

/-! ### One effect -/

section Cursors

variable {R : Point α → Point α → Prop} {B : Bounds α → Bounds α → Prop} {c d : Cursor α}

theorem Cursor.Matches.drawing (h : c.Matches R B d) : d.drawing = c.drawing := by
  have hanchor := h.anchor
  unfold Cursor.drawing
  rw [h.pen]
  generalize c.anchor = a at hanchor ⊢
  generalize d.anchor = a' at hanchor ⊢
  cases hanchor <;> rfl

theorem matches_motion (drawn : Bool) {p q : Point α} (h : R p q) :
    (motion drawn p).Matches R (motion drawn q) := by
  cases drawn
  · exact .moveTo h
  · exact .lineTo h

theorem Effect.Matches.instructions {e f : Effect α} (he : e.Matches R f)
    (h : c.Matches R B d) (mode : Mode) :
    List.Forall₂ (Instruction.Matches R) (e.instructions mode c) (f.instructions mode d) := by
  cases he with
  | none => exact .nil
  | moved =>
    simp only [Effect.instructions, h.drawing]
    exact .cons (matches_motion _ h.position) .nil
  | captureClosed hanchor => exact .cons (.moveTo hanchor) (.cons (matches_motion _ h.position) .nil)

theorem matches_prologue (config : Config α) (step : Point α) {p q : Point α} (mode : Mode)
    (h : R p q) :
    List.Forall₂ (Instruction.Matches R) (prologue config mode p)
      (prologue { config with step } mode q) := by
  cases mode with
  | draw => exact .cons (.setStrokeStyle _ _) (.cons .beginPath (.cons (.moveTo h) .nil))
  | measure => exact .cons (.moveTo h) .nil

theorem matches_epilogue (mode : Mode) :
    List.Forall₂ (Instruction.Matches R) (epilogue mode) (epilogue mode) := by
  cases mode
  · exact .cons .stroke .nil
  · exact .nil

end Cursors

/-! ### Correspondences -/

def Token.redirect (turn : Direction → Direction) : Token → Token
  | .axis d => .axis (turn d)
  | t => t

theorem Token.invalid?_redirect (turn : Direction → Direction) (t : Token) :
    (t.redirect turn).invalid? = t.invalid? := by
  cases t <;> rfl

def redirectAll (turn : Direction → Direction) (tokens : List (Nat × Token)) :
    List (Nat × Token) :=
  tokens.map fun t => (t.1, t.2.redirect turn)

theorem redirectAll_id (tokens : List (Nat × Token)) : redirectAll id tokens = tokens := by
  have hid (t : Nat × Token) : (t.1, t.2.redirect id) = t := by
    obtain ⟨index, token⟩ := t
    cases token <;> rfl
  unfold redirectAll
  simp only [hid, List.map_id']

variable [Scalar α]

/-- How runs at one step carry over to runs at another, with axis moves redirected:
an axis move keeps points corresponding, and so does growing a box. -/
structure Correspondence (step step' : Point α) where
  point : Point α → Point α → Prop
  box : Bounds α → Bounds α → Prop
  turn : Direction → Direction
  move {p q : Point α} (d : Direction) (n : UInt32) (h : point p q) :
    point (p + (d.unit * step).scale (Scalar.ofCount n))
      (q + ((turn d).unit * step').scale (Scalar.ofCount n))
  ofPoint {p q : Point α} (h : point p q) : box (.ofPoint p) (.ofPoint q)
  insert {b b' : Bounds α} {p q : Point α} (hb : box b b') (h : point p q) :
    box (b.insert p) (b'.insert q)

namespace Correspondence

variable {step step' : Point α} (K : Correspondence step step') {c d : Cursor α}

theorem start {p q : Point α} (h : K.point p q) :
    (Cursor.start p).Matches K.point K.box (Cursor.start q) where
  position := h
  origin := h
  multiplier := rfl
  pen := rfl
  anchor := .none
  waypoint name := by
    rw [Cursor.waypoint_start, Cursor.waypoint_start]
    exact .none
  bounds := K.ofPoint h

theorem advance (h : c.Matches K.point K.box d) (dir : Direction) :
    (c.advance step dir).Matches K.point K.box (d.advance step' (K.turn dir)) := by
  have hmove : K.point (c.position + c.displacement step dir)
      (d.position + d.displacement step' (K.turn dir)) := by
    have hcount : d.count = c.count := by rw [Cursor.count, Cursor.count, h.multiplier]
    unfold Cursor.displacement
    rw [hcount]
    exact K.move dir c.count h.position
  exact { h with
    position := hmove
    multiplier := rfl
    bounds := K.insert h.bounds hmove }

/-- One step: redirected tokens keep cursors matching and have matching effects. -/
theorem apply (h : c.Matches K.point K.box d) (token : Token) :
    (c.apply token step).1.Matches K.point K.box (d.apply (token.redirect K.turn) step').1 ∧
      (c.apply token step).2.Matches K.point (d.apply (token.redirect K.turn) step').2 := by
  cases token with
  | digit value =>
    refine ⟨{ h with multiplier := ?_ }, .none⟩
    simp only [Token.redirect, Cursor.apply, h.multiplier]
  | axis dir => exact ⟨K.advance h dir, .moved⟩
  | reset => exact ⟨{ h with position := h.origin, multiplier := rfl }, .moved⟩
  | blank half => cases half <;> exact ⟨{ h with pen := rfl }, .none⟩
  | space => exact ⟨h, .none⟩
  | invalid char => exact ⟨h, .none⟩
  | waypoint name action =>
    cases action with
    | define =>
      have hw (other : Char) :
          Option.Rel K.point ((c.apply (.waypoint name .define) step).1.waypoint other)
            ((d.apply (.waypoint name .define) step').1.waypoint other) := by
        rw [Cursor.waypoint_define, Cursor.waypoint_define]
        split
        · exact .some h.position
        · exact h.waypoint other
      simp only [Token.redirect, Cursor.apply] at hw ⊢
      cases hi : letterSlot? name with
      | none => exact ⟨h, .none⟩
      | some i =>
        simp only [hi] at hw
        exact ⟨{ h with waypoint := hw }, .none⟩
    | jump =>
      have hw := h.waypoint name
      simp only [Token.redirect, Cursor.apply]
      generalize c.waypoint name = w at hw ⊢
      generalize d.waypoint name = w' at hw ⊢
      cases hw with
      | none => exact ⟨h, .none⟩
      | some hp => exact ⟨{ h with position := hp }, .moved⟩
  | capture half =>
    cases half with
    | opening => exact ⟨{ h with anchor := .some h.position }, .none⟩
    | closing =>
      have ha := h.anchor
      simp only [Token.redirect, Cursor.apply]
      cases hc : c.anchor with
      | none =>
        rw [hc] at ha
        cases hd : d.anchor with
        | none => exact ⟨h, .none⟩
        | some q => rw [hd] at ha; contradiction
      | some p =>
        rw [hc] at ha
        cases hd : d.anchor with
        | none => rw [hd] at ha; contradiction
        | some q =>
          rw [hd] at ha
          obtain ⟨hpq⟩ := ha
          exact ⟨{ h with anchor := .none }, .captureClosed hpq⟩

theorem walk (h : c.Matches K.point K.box d) (mode : Mode) (tokens : List (Nat × Token)) :
    Trace.Matches K.point (Cursor.Matches K.point K.box) (walk step mode c tokens)
      (walk step' mode d (redirectAll K.turn tokens)) := by
  have hhead (index : Nat) (token : Token) (rest : List (Nat × Token)) :
      redirectAll K.turn ((index, token) :: rest)
        = (index, token.redirect K.turn) :: redirectAll K.turn rest := rfl
  induction tokens using tokens_induction generalizing c d with
  | nil => exact Trace.matches_done h
  | invalid index token char rest ht =>
    have hturned := (Token.invalid?_redirect K.turn token).trans ht
    rw [hhead, walk_cons_invalid _ _ _ _ _ ht, walk_cons_invalid _ _ _ _ _ hturned]
    exact Trace.matches_fail _
  | valid index token rest ht ih =>
    have hturned := (Token.invalid?_redirect K.turn token).trans ht
    obtain ⟨hnext, heffect⟩ := K.apply h token
    rw [hhead, walk_cons_valid _ _ _ _ _ ht, walk_cons_valid _ _ _ _ _ hturned]
    exact (ih hnext).after (heffect.instructions hnext mode)

/-- Whole passes correspond if the texts do, token by token. -/
theorem execute {config : Config α} (K : Correspondence config.step step') {p q : Point α}
    {pattern pattern' : String} (mode : Mode)
    (htext : tokenize pattern' = redirectAll K.turn (tokenize pattern)) (h : K.point p q) :
    Trace.Matches K.point (Cursor.Matches K.point K.box) (execute config p pattern mode)
      (LineArt.execute { config with step := step' } q pattern' mode) := by
  rw [execute_eq, execute_eq, htext]
  apply Trace.Matches.after (matches_prologue config step' mode h)
  apply (K.walk (K.start h) mode (tokenize pattern)).andThen
  intro b c hbc
  exact (Trace.matches_done hbc).after (matches_epilogue mode)

end Correspondence

end LineArt
