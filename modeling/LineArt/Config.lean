import LineArt.Point

/-!
# Run settings

What a host chooses for a run besides the pattern: the step, the canvas and the
stroke, where to start, and whether to draw or only to measure.
-/

namespace LineArt

structure Config (α : Type) where
  /-- The distance of one unit move along each axis. -/
  step : Point α
  /-- The extent of the canvas from the origin; only centering looks at it. -/
  canvas : Point α
  strokeColor : String
  strokeWidth : α
deriving DecidableEq

def Config.standard {α : Type} [Scalar α] : Config α where
  step := Point.splat (Scalar.ofCount 10)
  canvas := Point.splat (Scalar.ofCount 800)
  strokeColor := "#000000"
  strokeWidth := Scalar.one

/-- Draw strokes, or only trace the way and report its extent. -/
inductive Mode where
  | draw
  | measure
deriving DecidableEq

inductive Coord (α : Type) where
  | fixed (value : α)
  /-- The pattern is to be centered on the canvas along this axis. -/
  | centered
deriving DecidableEq

structure Start (α : Type) where
  x : Coord α
  y : Coord α
deriving DecidableEq

namespace Start

variable {α : Type}

def ofPoint (p : Point α) : Start α := ⟨.fixed p.x, .fixed p.y⟩

def centered : Start α := ⟨.centered, .centered⟩

end Start

/-- The value of an axis, taken from elsewhere where the axis is centered. -/
def Coord.resolve {α : Type} : Coord α → α → α
  | .fixed v, _ => v
  | .centered, offset => offset

/-- The point a start names by itself, if it is centered on no axis. -/
def Start.point? {α : Type} : Start α → Option (Point α)
  | ⟨.fixed x, .fixed y⟩ => some ⟨x, y⟩
  | _ => none

end LineArt
