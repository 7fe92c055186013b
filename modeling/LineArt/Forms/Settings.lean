import LineArt.Config
import LineArt.Forms.Geometry

/-!
# JSON forms of the run settings

Settings, modes and starts.  Of the settings, any field that is left out keeps
its standard value.
-/

namespace LineArt

open Json (Form Record Variant plainVariants readVariant required writeHolding)

def Mode.name : Mode → String
  | draw => "draw"
  | measure => "measure"

instance : Form Mode where
  write := fun m => .string m.name
  read := readVariant (plainVariants Mode.name [.draw, .measure])

instance : Form (Coord Float32) where
  write
    | .fixed v => writeHolding "at" (Form.write v)
    | .centered => .string "centered"
  read := readVariant
    [("at", .holding fun depth node => return .fixed (← Form.read depth node)),
     ("centered", .plain .centered)]

inductive Start.Field where
  | x
  | y
deriving DecidableEq

def Start.record : Record Start.Field where
  fields := [.x, .y]
  name
    | .x => "x"
    | .y => "y"
  Content := fun _ => Coord Float32
  form := fun _ => inferInstance

instance : Form (Start Float32) where
  write := fun s => Start.record.write fun
    | .x => s.x
    | .y => s.y
  read depth node := do
    let g ← Start.record.read depth false node
    return ⟨← required (g .x), ← required (g .y)⟩

inductive Config.Field where
  | step
  | canvas
  | strokeColor
  | strokeWidth
deriving DecidableEq

def Config.Field.Content : Config.Field → Type
  | step => Point Float32
  | canvas => Point Float32
  | strokeColor => String
  | strokeWidth => Float32

def Config.record : Record Config.Field where
  fields := [.step, .canvas, .strokeColor, .strokeWidth]
  name
    | .step => "step"
    | .canvas => "canvas"
    | .strokeColor => "stroke_color"
    | .strokeWidth => "stroke_width"
  Content := Config.Field.Content
  form
    | .step => inferInstanceAs (Form (Point Float32))
    | .canvas => inferInstanceAs (Form (Point Float32))
    | .strokeColor => inferInstanceAs (Form String)
    | .strokeWidth => inferInstanceAs (Form Float32)

def Config.ofGathered (g : Config.record.Gathered) : Config Float32 where
  step := (g .step).getD (Config.standard (α := Float32)).step
  canvas := (g .canvas).getD (Config.standard (α := Float32)).canvas
  strokeColor := (g .strokeColor).getD (Config.standard (α := Float32)).strokeColor
  strokeWidth := (g .strokeWidth).getD (Config.standard (α := Float32)).strokeWidth

instance : Form (Config Float32) where
  write := fun c => Config.record.write fun
    | .step => c.step
    | .canvas => c.canvas
    | .strokeColor => c.strokeColor
    | .strokeWidth => c.strokeWidth
  read depth node := do
    return Config.ofGathered (← Config.record.read depth true node)

end LineArt
