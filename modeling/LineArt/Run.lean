import LineArt.Config
import LineArt.Cursor
import LineArt.Trace

/-!
# Runs

A run walks a pattern from a point and turns each effect on the cursor into
instructions.  Drawing opens with the stroke style and a new path and closes
with a stroke; measuring gives nothing but moves.  The first instruction on the
path is always a move to the start, and every change of position gives one
motion: a line where the cursor draws, a move elsewhere.  The end of a capture
region gives a move to its anchor and one connector from there.

A start that is centered on some axis is resolved first, by measuring the
pattern from the origin; that pass is part of the run's trace.
-/

namespace LineArt

variable {α : Type}

def motion (drawn : Bool) (p : Point α) : Instruction α :=
  if drawn then .lineTo p else .moveTo p

def Effect.instructions (mode : Mode) (cursor : Cursor α) : Effect α → List (Instruction α)
  | .none => []
  | .moved => [motion (mode = .draw && cursor.drawing) cursor.position]
  | .captureClosed anchor => [.moveTo anchor, motion (mode = .draw) cursor.position]

def prologue (config : Config α) (mode : Mode) (start : Point α) : List (Instruction α) :=
  match mode with
  | .draw => [.setStrokeStyle config.strokeColor config.strokeWidth, .beginPath, .moveTo start]
  | .measure => [.moveTo start]

def epilogue : Mode → List (Instruction α)
  | .draw => [.stroke]
  | .measure => []

variable [Scalar α]

def walk (step : Point α) (mode : Mode) : Cursor α → List (Nat × Token) → Trace α (Cursor α)
  | cursor, [] => .done cursor
  | cursor, (index, token) :: rest =>
    match token.invalid? with
    | some c => .fail ⟨c, index⟩
    | none =>
      let (next, effect) := cursor.apply token step
      .after (effect.instructions mode next) (walk step mode next rest)

/-- One pass over a pattern from a point; the result is the final cursor. -/
def execute (config : Config α) (start : Point α) (pattern : String) (mode : Mode) :
    Trace α (Cursor α) := do
  .emit (prologue config mode start)
  let cursor ← walk config.step mode (.start start) (tokenize pattern)
  .emit (epilogue mode)
  return cursor

/-- How far a box is from the middle of the canvas. -/
def centering (config : Config α) (bounds : Bounds α) : Point α :=
  (Bounds.ofCorners Point.origin config.canvas).middle - bounds.center

/-- The point a run begins at; a centered axis is found by measuring from the origin. -/
def startingPoint (config : Config α) (start : Start α) (pattern : String) :
    Trace α (Point α) :=
  match start.point? with
  | some p => .done p
  | none => do
    let cursor ← execute config Point.origin pattern .measure
    let offset := centering config cursor.bounds
    return ⟨start.x.resolve offset.x, start.y.resolve offset.y⟩

/-- A run from a start that may be centered; the result is the final cursor. -/
def run (config : Config α) (start : Start α) (pattern : String) (mode : Mode) :
    Trace α (Cursor α) := do
  let point ← startingPoint config start pattern
  execute config point pattern mode

/-- A run in a given mode; the result is the extent when measuring. -/
def interpret (config : Config α) (start : Start α) (pattern : String) (mode : Mode) :
    Trace α (Option (Bounds α)) := do
  let cursor ← run config start pattern mode
  return match mode with
    | .draw => none
    | .measure => some cursor.bounds

def draw (config : Config α) (start : Start α) (pattern : String) : Trace α Unit := do
  let _ ← interpret config start pattern .draw
  return ()

def measure (config : Config α) (start : Start α) (pattern : String) : Trace α (Bounds α) := do
  let cursor ← run config start pattern .measure
  return cursor.bounds

end LineArt
