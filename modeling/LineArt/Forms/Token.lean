import LineArt.Json.Form
import LineArt.Symmetry
import LineArt.Token

/-!
# JSON forms of tokens

Tokens, the names they hold, and symmetries.  A name without data is a string;
a name with data is an object with that one member.
-/

namespace LineArt

open Json (Form Value Variant plainVariants readVariant writeHolding)

def Direction.name : Direction → String
  | posX => "PosX"
  | negX => "NegX"
  | posY => "PosY"
  | negY => "NegY"

instance : Form Direction where
  write := fun d => .string d.name
  read := readVariant (plainVariants Direction.name Direction.all)

def WaypointAction.name : WaypointAction → String
  | define => "Define"
  | jump => "Jump"

instance : Form WaypointAction where
  write := fun a => .string a.name
  read := readVariant (plainVariants WaypointAction.name [.define, .jump])

def Half.name : Half → String
  | opening => "Enter"
  | closing => "Exit"

instance : Form Half where
  write := fun t => .string t.name
  read := readVariant (plainVariants Half.name [.opening, .closing])

instance : Form Symmetry where
  write := fun s => .string s.name
  read := readVariant (plainVariants Symmetry.name Symmetry.all)

def Token.variants : List (String × Variant Token) :=
  [("Digit", .holding fun depth node => return .digit (← Form.read depth node)),
   ("Axis", .holding fun depth node => return .axis (← Form.read depth node)),
   ("Waypoint", .holding fun depth node => do
      let (name, action) ← Json.readPair depth node
      return .waypoint name action),
   ("Blank", .holding fun depth node => return .blank (← Form.read depth node)),
   ("Capture", .holding fun depth node => return .capture (← Form.read depth node)),
   ("Reset", .plain .reset),
   ("Whitespace", .plain .space),
   ("Invalid", .holding fun depth node => return .invalid (← Form.read depth node))]

def Token.toValue : Token → Value
  | .digit value => writeHolding "Digit" (Form.write value)
  | .axis d => writeHolding "Axis" (Form.write d)
  | .waypoint name action =>
    writeHolding "Waypoint" (.array [Form.write name, Form.write action])
  | .blank half => writeHolding "Blank" (Form.write half)
  | .capture half => writeHolding "Capture" (Form.write half)
  | .reset => .string "Reset"
  | .space => .string "Whitespace"
  | .invalid char => writeHolding "Invalid" (Form.write char)

instance : Form Token where
  write := Token.toValue
  read := readVariant Token.variants

end LineArt
