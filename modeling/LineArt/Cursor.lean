import LineArt.Bounds
import LineArt.Token

/-!
# Cursor

Everything one run keeps track of, and what each token does to it.  The cursor
draws nothing itself: `Cursor.apply` answers with an effect, and the run decides
which instruction an effect becomes.
-/

namespace LineArt

inductive Pen where
  | draw
  | lift
deriving DecidableEq

inductive Effect (α : Type) where
  | none
  /-- The position was set, possibly to where it was. -/
  | moved
  /-- A capture region was closed; its connector runs from the anchor to the position. -/
  | captureClosed (anchor : Point α)
deriving DecidableEq

structure Cursor (α : Type) where
  position : Point α
  /-- The starting point, to which a reset returns. -/
  origin : Point α
  /-- The digits since the last move or reset, read as one number. -/
  multiplier : Option UInt32
  pen : Pen
  /-- Where the open capture region was entered. -/
  anchor : Option (Point α)
  waypoints : Vector (Option (Point α)) 26
  /-- The extent of the axis moves. -/
  bounds : Bounds α
deriving DecidableEq

/-- The slot of a waypoint name; only the letters from a to z have one. -/
def letterSlot? (name : Char) : Option (Fin 26) :=
  if h : 97 ≤ name.toNat ∧ name.toNat < 123 then some ⟨name.toNat - 97, by omega⟩ else none

theorem letterSlot?_isSome_iff {name : Char} : (letterSlot? name).isSome ↔ name.isLower := by
  rw [isLower_iff, letterSlot?]
  split
  · exact iff_of_true rfl (by omega)
  · exact iff_of_false Bool.false_ne_true (by omega)

theorem toNat_of_letterSlot? {name : Char} {i : Fin 26} (h : letterSlot? name = some i) :
    name.toNat = i.val + 97 := by
  unfold letterSlot? at h
  split at h
  · have hval : name.toNat - 97 = i.val := congrArg Fin.val (Option.some.inj h)
    omega
  · contradiction

theorem eq_of_letterSlot?_eq {name other : Char} (hname : name.isLower)
    (h : letterSlot? other = letterSlot? name) : other = name := by
  obtain ⟨i, hi⟩ := Option.isSome_iff_exists.1 (letterSlot?_isSome_iff.2 hname)
  rw [hi] at h
  exact Char.toNat_inj.1 ((toNat_of_letterSlot? h).trans (toNat_of_letterSlot? hi).symm)

/-- A letter is the only name with its slot. -/
theorem letterSlot?_eq_iff {name other : Char} :
    letterSlot? name ≠ none ∧ letterSlot? other = letterSlot? name
      ↔ name.isLower ∧ other = name := by
  rw [← Option.isSome_iff_ne_none, letterSlot?_isSome_iff]
  exact and_congr_right fun hname => ⟨eq_of_letterSlot?_eq hname, congrArg letterSlot?⟩

def greatestCount : Nat := 0xFFFFFFFF

/-- The 32-bit count nearest to a number, none being above the greatest. -/
def clampCount (n : Nat) : UInt32 := UInt32.ofNat (Nat.min n greatestCount)

def saturatingMul (a b : UInt32) : UInt32 := clampCount (a.toNat * b.toNat)

def saturatingAdd (a b : UInt32) : UInt32 := clampCount (a.toNat + b.toNat)

/-- A pending multiplier with one more digit, held at the greatest count at each step. -/
def pushDigit (pending : Option UInt32) (digit : UInt8) : UInt32 :=
  saturatingAdd (saturatingMul (pending.getD 0) 10) digit.toUInt32

theorem toNat_clampCount (n : Nat) : (clampCount n).toNat = Nat.min n greatestCount := by
  have hle : Nat.min n greatestCount ≤ greatestCount := Nat.min_le_right n greatestCount
  have hlt : greatestCount < UInt32.size := by decide
  exact UInt32.toNat_ofNat_of_lt' (Nat.lt_of_le_of_lt hle hlt)

namespace Cursor

variable {α : Type}

def start (p : Point α) : Cursor α where
  position := p
  origin := p
  multiplier := Option.none
  pen := .draw
  anchor := Option.none
  waypoints := Vector.replicate 26 Option.none
  bounds := Bounds.ofPoint p

/-- Whether a plain move draws: the pen is down and no capture region is open. -/
def drawing (c : Cursor α) : Bool := c.pen = .draw && c.anchor.isNone

def waypoint (c : Cursor α) (name : Char) : Option (Point α) :=
  (letterSlot? name).bind fun i => c.waypoints[i]

def count (c : Cursor α) : UInt32 := c.multiplier.getD 1

theorem waypoint_start (p : Point α) (name : Char) : (start p).waypoint name = none := by
  cases h : letterSlot? name <;> simp [waypoint, start, h]

@[simp] theorem start_bounds (p : Point α) : (start p).bounds = Bounds.ofPoint p := rfl

@[simp] theorem start_position (p : Point α) : (start p).position = p := rfl

@[simp] theorem start_origin (p : Point α) : (start p).origin = p := rfl

variable [Scalar α]

def displacement (c : Cursor α) (step : Point α) (d : Direction) : Point α :=
  (d.unit * step).scale (Scalar.ofCount c.count)

/-- One axis move: the position advances, the multiplier is used up, the bounds grow. -/
def advance (c : Cursor α) (step : Point α) (d : Direction) : Cursor α :=
  let position := c.position + c.displacement step d
  { c with position, multiplier := none, bounds := c.bounds.insert position }

def apply (c : Cursor α) (token : Token) (step : Point α) : Cursor α × Effect α :=
  match token with
  | .digit value => ({ c with multiplier := some (pushDigit c.multiplier value) }, .none)
  | .axis d => (c.advance step d, .moved)
  | .reset => ({ c with multiplier := none, position := c.origin }, .moved)
  | .waypoint name .define =>
    match letterSlot? name with
    | some i => ({ c with waypoints := c.waypoints.set i (some c.position) }, .none)
    | none => (c, .none)
  | .waypoint name .jump =>
    match c.waypoint name with
    | some p => ({ c with position := p }, .moved)
    | none => (c, .none)
  | .blank .opening => ({ c with pen := .lift }, .none)
  | .blank .closing => ({ c with pen := .draw }, .none)
  | .capture .opening => ({ c with anchor := some c.position }, .none)
  | .capture .closing =>
    match c.anchor with
    | some anchor => ({ c with anchor := none }, .captureClosed anchor)
    | none => (c, .none)
  | .space => (c, .none)
  | .invalid _ => (c, .none)

def applyAll (c : Cursor α) (tokens : List Token) (step : Point α) : Cursor α :=
  tokens.foldl (fun c token => (c.apply token step).1) c

@[simp] theorem apply_space (c : Cursor α) (step : Point α) :
    c.apply .space step = (c, .none) := rfl

@[simp] theorem apply_invalid (c : Cursor α) (char : Char) (step : Point α) :
    c.apply (.invalid char) step = (c, .none) := rfl

@[simp] theorem apply_origin (c : Cursor α) (token : Token) (step : Point α) :
    (c.apply token step).1.origin = c.origin := by
  unfold apply advance
  repeat' split
  all_goals rfl

/-- Binding a name changes what that name recalls, and nothing else. -/
theorem waypoint_define (c : Cursor α) (name other : Char) (step : Point α) :
    (c.apply (.waypoint name .define) step).1.waypoint other
      = if letterSlot? name ≠ none ∧ letterSlot? other = letterSlot? name then some c.position
        else c.waypoint other := by
  cases hi : letterSlot? name with
  | none => simp [apply, hi]
  | some i =>
    cases hj : letterSlot? other with
    | none => simp [apply, waypoint, hi, hj]
    | some j =>
      by_cases h : i = j
      · simp [apply, waypoint, hi, hj, h]
      · have hne : ¬ i.val = j.val := fun hval => h (Fin.ext hval)
        simp [apply, waypoint, hi, hj, Ne.symm h, hne]

theorem apply_position (c : Cursor α) (token : Token) (step : Point α) :
    (c.apply token step).1.position = match token with
      | .axis d => c.position + c.displacement step d
      | .reset => c.origin
      | .waypoint name .jump => (c.waypoint name).getD c.position
      | _ => c.position := by
  cases token with
  | blank half => cases half <;> rfl
  | capture half =>
    cases half
    · rfl
    · simp only [apply]
      split <;> rfl
  | waypoint name action =>
    cases action
    · simp only [apply]
      split <;> rfl
    · cases h : c.waypoint name <;> simp only [apply, h] <;> rfl
  | _ => rfl

/-- The surface hears of moves, resets, jumps to a bound letter and ends of a region. -/
theorem effect_apply (c : Cursor α) (token : Token) (step : Point α) :
    (c.apply token step).2 = match token with
      | .axis _ => .moved
      | .reset => .moved
      | .waypoint name .jump => if (c.waypoint name).isSome then .moved else .none
      | .capture .closing => c.anchor.elim .none .captureClosed
      | _ => .none := by
  cases token with
  | blank half => cases half <;> rfl
  | capture half =>
    cases half
    · rfl
    · cases h : c.anchor <;> simp only [apply, h] <;> rfl
  | waypoint name action =>
    cases action
    · simp only [apply]
      split <;> rfl
    · cases h : c.waypoint name <;> simp only [apply, h] <;> rfl
  | _ => rfl

theorem apply_multiplier (c : Cursor α) (token : Token) (step : Point α) :
    (c.apply token step).1.multiplier = match token with
      | .digit value => some (pushDigit c.multiplier value)
      | .axis _ => none
      | .reset => none
      | _ => c.multiplier := by
  cases token with
  | blank half => cases half <;> rfl
  | capture half =>
    cases half
    · rfl
    · simp only [apply]
      split <;> rfl
  | waypoint name action => cases action <;> simp only [apply] <;> split <;> rfl
  | _ => rfl

theorem apply_pen (c : Cursor α) (token : Token) (step : Point α) :
    (c.apply token step).1.pen = match token with
      | .blank .opening => .lift
      | .blank .closing => .draw
      | _ => c.pen := by
  cases token with
  | blank half => cases half <;> rfl
  | capture half =>
    cases half
    · rfl
    · simp only [apply]
      split <;> rfl
  | waypoint name action => cases action <;> simp only [apply] <;> split <;> rfl
  | _ => rfl

theorem apply_anchor (c : Cursor α) (token : Token) (step : Point α) :
    (c.apply token step).1.anchor = match token with
      | .capture .opening => some c.position
      | .capture .closing => none
      | _ => c.anchor := by
  cases token with
  | blank half => cases half <;> rfl
  | capture half =>
    cases half
    · rfl
    · simp only [apply]
      split
      · rfl
      · assumption
  | waypoint name action => cases action <;> simp only [apply] <;> split <;> rfl
  | _ => rfl

theorem apply_waypoint (c : Cursor α) (token : Token) (step : Point α) (other : Char) :
    (c.apply token step).1.waypoint other = match token with
      | .waypoint name .define =>
        if letterSlot? name ≠ none ∧ letterSlot? other = letterSlot? name then some c.position
        else c.waypoint other
      | _ => c.waypoint other := by
  cases token with
  | blank half => cases half <;> rfl
  | capture half =>
    cases half
    · rfl
    · simp only [apply]
      split <;> rfl
  | waypoint name action =>
    cases action
    · exact c.waypoint_define name other step
    · simp only [apply]
      split <;> rfl
  | _ => rfl

@[simp] theorem applyAll_nil (c : Cursor α) (step : Point α) : c.applyAll [] step = c := rfl

@[simp] theorem applyAll_cons (c : Cursor α) (token : Token) (tokens : List Token)
    (step : Point α) :
    c.applyAll (token :: tokens) step = (c.apply token step).1.applyAll tokens step := rfl

end Cursor

end LineArt
