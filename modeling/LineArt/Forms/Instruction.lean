import LineArt.Forms.Geometry
import LineArt.Instruction

/-!
# JSON forms of instructions and recordings

An instruction is an object with its kind under the name `op` among its fields.
It is taken as a whole before its fields are looked at, since the kind may stand
last; whatever is wrong with a field is then a mismatch.  An array with the kind
in front of the fields is read too.
-/

namespace LineArt

open Json (Ending Fault Form Items Node Quoted Record Value depthLimit required)

namespace Instruction

inductive Kind where
  | setStrokeStyle
  | beginPath
  | moveTo
  | lineTo
  | stroke
  | fillRect
  | arc
deriving DecidableEq

def Kind.name : Kind → String
  | setStrokeStyle => "set_stroke_style"
  | beginPath => "begin_path"
  | moveTo => "move_to"
  | lineTo => "line_to"
  | stroke => "stroke"
  | fillRect => "fill_rect"
  | arc => "arc"

def Kind.all : List Kind :=
  [setStrokeStyle, beginPath, moveTo, lineTo, stroke, fillRect, arc]

inductive Field where
  | color
  | width
  | point
  | min
  | max
  | center
  | radius
  | startAngle
  | endAngle
  | thickness
deriving DecidableEq

def Field.name : Field → String
  | color => "color"
  | width => "width"
  | point => "point"
  | min => "min"
  | max => "max"
  | center => "center"
  | radius => "radius"
  | startAngle => "start_angle"
  | endAngle => "end_angle"
  | thickness => "thickness"

def Field.Content : Field → Type
  | color => String
  | width | radius | startAngle | endAngle | thickness => Float32
  | point | min | max | center => Point Float32

@[reducible] def Field.form : (f : Field) → Form f.Content
  | color => inferInstanceAs (Form String)
  | width => inferInstanceAs (Form Float32)
  | radius => inferInstanceAs (Form Float32)
  | startAngle => inferInstanceAs (Form Float32)
  | endAngle => inferInstanceAs (Form Float32)
  | thickness => inferInstanceAs (Form Float32)
  | point => inferInstanceAs (Form (Point Float32))
  | min => inferInstanceAs (Form (Point Float32))
  | max => inferInstanceAs (Form (Point Float32))
  | center => inferInstanceAs (Form (Point Float32))

def Kind.fields : Kind → List Field
  | setStrokeStyle => [.color, .width]
  | beginPath => []
  | moveTo => [.point]
  | lineTo => [.point]
  | stroke => []
  | fillRect => [.min, .max, .color]
  | arc => [.center, .radius, .startAngle, .endAngle, .color, .thickness]

def Kind.record (kind : Kind) : Record Field := ⟨kind.fields, Field.name, Field.Content, Field.form⟩

def Kind.build (kind : Kind) (g : kind.record.Gathered) :
    Except Fault (Instruction Float32) :=
  match kind with
  | setStrokeStyle => return .setStrokeStyle (← required (g .color)) (← required (g .width))
  | beginPath => return .beginPath
  | moveTo => return .moveTo (← required (g .point))
  | lineTo => return .lineTo (← required (g .point))
  | stroke => return .stroke
  | fillRect =>
    return .fillRect (← required (g .min)) (← required (g .max)) (← required (g .color))
  | arc =>
    return .arc (← required (g .center)) (← required (g .radius)) (← required (g .startAngle))
      (← required (g .endAngle)) (← required (g .color)) (← required (g .thickness))

/-! ### Writing -/

def tag : String := "op"

def member (f : Field) (content : f.Content) : String × Value := (f.name, f.form.write content)

def members : Instruction Float32 → Kind × List (String × Value)
  | .setStrokeStyle color width =>
    (.setStrokeStyle, [member .color color, member .width width])
  | .beginPath => (.beginPath, [])
  | .moveTo point => (.moveTo, [member .point point])
  | .lineTo point => (.lineTo, [member .point point])
  | .stroke => (.stroke, [])
  | .fillRect min max color =>
    (.fillRect, [member .min min, member .max max, member .color color])
  | .arc center radius startAngle endAngle color thickness =>
    (.arc, [member .center center, member .radius radius, member .startAngle startAngle,
      member .endAngle endAngle, member .color color, member .thickness thickness])

def toValue (i : Instruction Float32) : Value :=
  .object ((tag, .string i.members.1.name) :: i.members.2)

/-! ### Reading -/

def readKind (node : Node) : Except Fault Kind := do
  let name ← node.chars
  match Kind.all.find? fun k => k.name.toList = name with
  | some kind => return kind
  | none => .error .mismatch

/-- Takes the members of an object as a whole: the kind, and the fields in order. -/
def takeMembers (depth : Nat) (ending : Ending) :
    Option Kind → List (Quoted × Node) → Except Fault (Kind × List (Quoted × Node))
  | kind, [] => do
    ending.finish
    return (← required kind, [])
  | kind, (name, value) :: rest => do
    if (← name.chars) = tag.toList then
      if kind.isSome then .error .mismatch
      else takeMembers depth ending (some (← readKind value)) rest
    else
      value.check depth
      let (kind, fields) ← takeMembers depth ending kind rest
      return (kind, (name, value) :: fields)

/-- Takes the items of an array as a whole: the kind, and the fields in order. -/
def takeItems (depth : Nat) (items : Items) : Except Fault (Kind × List Node) := do
  let (first, rest) ← items.next
  let kind ← readKind first
  Node.checkItems depth rest.nodes
  rest.ending.finish
  return (kind, rest.nodes)

/-- Faults of fields that were taken as a whole are mismatches. -/
def interpreted {β : Type} (fields : Except Fault β) : Except Fault β :=
  fields.mapError fun _ => .mismatch

def read (depth : Nat) : Node → Except Fault (Instruction Float32)
  | .object members ending => do
    let depth ← Node.enter depth
    let (kind, fields) ← takeMembers depth ending none members
    interpreted do
      kind.build (← kind.record.readMembers depthLimit .closed kind.record.none fields)
  | .array nodes ending => do
    let depth ← Node.enter depth
    let (kind, fields) ← takeItems depth ⟨nodes, ending⟩
    interpreted do
      kind.build
        (← kind.record.readItems depthLimit false kind.record.none kind.fields ⟨fields, .closed⟩)
  | node => .error node.mistyped

end Instruction

instance : Form (Instruction Float32) where
  write := Instruction.toValue
  read := Instruction.read

inductive Recording.Field where
  | instructions
deriving DecidableEq

def Recording.record : Record Recording.Field where
  fields := [.instructions]
  name := fun _ => "instructions"
  Content := fun _ => List (Instruction Float32)
  form := fun _ => inferInstance

instance : Form (Recording Float32) where
  write := fun r => Recording.record.write fun _ => r.instructions
  read depth node := do
    let g ← Recording.record.read depth false node
    return ⟨← required (g .instructions)⟩

end LineArt
