import LineArt.Bounds

/-!
# Instructions

What a drawing surface is told to do.  A recording is the list of instructions
in the order in which they were given.  A run gives only the path instructions,
from the stroke style to the stroke; rectangles and arcs are decoration and
carry their own styling.
-/

namespace LineArt

inductive Instruction (α : Type) where
  | setStrokeStyle (color : String) (width : α)
  | beginPath
  /-- Moves the pen without drawing. -/
  | moveTo (point : Point α)
  /-- Draws a straight segment from where the pen is. -/
  | lineTo (point : Point α)
  /-- Commits the path. -/
  | stroke
  | fillRect (min max : Point α) (color : String)
  | arc (center : Point α) (radius startAngle endAngle : α) (color : String) (thickness : α)
deriving DecidableEq

namespace Instruction

variable {α : Type}

/-- A filled rectangle between two opposite corners, whichever two they are. -/
def fillBetween [Scalar α] (p q : Point α) (color : String) : Instruction α :=
  let box := Bounds.ofCorners p q
  .fillRect box.min box.max color

def move? : Instruction α → Option (Point α)
  | moveTo p => some p
  | _ => none

def line? : Instruction α → Option (Point α)
  | lineTo p => some p
  | _ => none

def isLine (i : Instruction α) : Bool := i.line?.isSome

def target? : Instruction α → Option (Point α)
  | moveTo p => some p
  | lineTo p => some p
  | _ => none

def isMotion (i : Instruction α) : Bool := i.target?.isSome

end Instruction

structure Recording (α : Type) where
  instructions : List (Instruction α)
deriving DecidableEq

namespace Recording

variable {α : Type}

def empty : Recording α := ⟨[]⟩

def append (r : Recording α) (more : List (Instruction α)) : Recording α :=
  ⟨r.instructions ++ more⟩

def moves (r : Recording α) : List (Point α) := r.instructions.filterMap Instruction.move?

def lines (r : Recording α) : List (Point α) := r.instructions.filterMap Instruction.line?

def path (r : Recording α) : List (Instruction α) := r.instructions.filter Instruction.isMotion

@[simp] theorem instructions_append (r : Recording α) (more : List (Instruction α)) :
    (r.append more).instructions = r.instructions ++ more := rfl

theorem append_append (r : Recording α) (xs ys : List (Instruction α)) :
    (r.append xs).append ys = r.append (xs ++ ys) := by
  simp [append]

end Recording

end LineArt
