import LineArt.Cursor
import LineArt.Forms.Geometry

/-!
# JSON form of a cursor

A cursor is a record of all its fields; its waypoints are an array of twenty-six
points or nulls.  A multiplier or an anchor that an object leaves out is absent.
-/

namespace LineArt

open Json (Form Record plainVariants readVariant required)

def Pen.name : Pen → String
  | draw => "Draw"
  | lift => "Lift"

instance : Form Pen where
  write := fun p => .string p.name
  read := readVariant (plainVariants Pen.name [.draw, .lift])

inductive Cursor.Field where
  | position
  | origin
  | multiplier
  | pen
  | anchor
  | waypoints
  | bounds
deriving DecidableEq

def Cursor.Field.Content : Cursor.Field → Type
  | position => Point Float32
  | origin => Point Float32
  | multiplier => Option UInt32
  | pen => Pen
  | anchor => Option (Point Float32)
  | waypoints => Vector (Option (Point Float32)) 26
  | bounds => Bounds Float32

def Cursor.record : Record Cursor.Field where
  fields := [.position, .origin, .multiplier, .pen, .anchor, .waypoints, .bounds]
  name
    | .position => "position"
    | .origin => "origin"
    | .multiplier => "multiplier"
    | .pen => "pen"
    | .anchor => "capture_anchor"
    | .waypoints => "waypoints"
    | .bounds => "bounds"
  Content := Cursor.Field.Content
  form
    | .position => inferInstanceAs (Form (Point Float32))
    | .origin => inferInstanceAs (Form (Point Float32))
    | .multiplier => inferInstanceAs (Form (Option UInt32))
    | .pen => inferInstanceAs (Form Pen)
    | .anchor => inferInstanceAs (Form (Option (Point Float32)))
    | .waypoints => inferInstanceAs (Form (Vector (Option (Point Float32)) 26))
    | .bounds => inferInstanceAs (Form (Bounds Float32))

instance : Form (Cursor Float32) where
  write := fun c => Cursor.record.write fun
    | .position => c.position
    | .origin => c.origin
    | .multiplier => c.multiplier
    | .pen => c.pen
    | .anchor => c.anchor
    | .waypoints => c.waypoints
    | .bounds => c.bounds
  read depth node := do
    let g ← Cursor.record.read depth false node
    return {
      position := ← required (g .position)
      origin := ← required (g .origin)
      multiplier := (g .multiplier).getD none
      pen := ← required (g .pen)
      anchor := (g .anchor).getD none
      waypoints := ← required (g .waypoints)
      bounds := ← required (g .bounds) }

end LineArt
