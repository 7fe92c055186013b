import LineArt.Bounds
import LineArt.Json.Record

/-!
# JSON forms of points and bounds

A point is the array of its two components.  Bounds are the record of their two
corners.
-/

namespace LineArt

open Json (Form Record required)

instance : Form (Point Float32) where
  write := fun p => .array [Form.write p.x, Form.write p.y]
  read depth node := do
    let (x, y) ← Json.readPair depth node
    return ⟨x, y⟩

inductive Bounds.Field where
  | min
  | max
deriving DecidableEq

def Bounds.record : Record Bounds.Field where
  fields := [.min, .max]
  name
    | .min => "min"
    | .max => "max"
  Content := fun _ => Point Float32
  form := fun _ => inferInstance

instance : Form (Bounds Float32) where
  write := fun b => Bounds.record.write fun
    | .min => b.min
    | .max => b.max
  read depth node := do
    let g ← Bounds.record.read depth false node
    return ⟨← required (g .min), ← required (g .max)⟩

end LineArt
