import LineArt.Config
import LineArt.Decimal.Layout
import LineArt.Instruction

/-!
# SVG documents

A recording as one path.  Every pen motion is one command of the path, `M` for a
move and `L` for a line; all other instructions are left out.  Numbers are
written with their shortest digits and never with an exponent.  Nothing is
escaped.
-/

namespace LineArt.Svg

def floatLayout : Decimal.Layout where
  tie := .away
  positional := fun _ => true
  pointed := false

/-- The text of a float that is not finite. -/
def extremeText (x : Float32) : List Char :=
  if x.isNaN then "NaN".toList
  else if x < Float32.ofBits 0 then "-inf".toList
  else "inf".toList

def floatText (x : Float32) : List Char :=
  match floatLayout.numeral? x with
  | some n => n.text
  | none => extremeText x

def command (letter : Char) (p : Point Float32) : List Char :=
  letter :: floatText p.x ++ ' ' :: floatText p.y

def command? : Instruction Float32 → Option (List Char)
  | .moveTo p => some (command 'M' p)
  | .lineTo p => some (command 'L' p)
  | _ => none

def pathData (r : Recording Float32) : List Char :=
  List.intercalate [' '] (r.instructions.filterMap command?)

def assigned (name : String) (value : List Char) : List Char :=
  name.toList ++ '=' :: '"' :: value ++ ['"']

def openingTag (width height : List Char) : List Char :=
  "<svg ".toList ++ assigned "xmlns" "http://www.w3.org/2000/svg".toList
    ++ ' ' :: assigned "width" width ++ ' ' :: assigned "height" height
    ++ ' ' :: assigned "viewBox" ("0 0 ".toList ++ width ++ ' ' :: height) ++ ['>']

def pathTag (data color width : List Char) : List Char :=
  "<path ".toList ++ assigned "d" data ++ ' ' :: assigned "fill" "none".toList
    ++ ' ' :: assigned "stroke" color ++ ' ' :: assigned "stroke-width" width
    ++ "/>".toList

def document (config : Config Float32) (r : Recording Float32) : List Char :=
  openingTag (floatText config.canvas.x) (floatText config.canvas.y)
    ++ pathTag (pathData r) config.strokeColor.toList (floatText config.strokeWidth)
    ++ "</svg>".toList

end LineArt.Svg
