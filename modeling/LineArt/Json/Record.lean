import LineArt.Json.Form

/-!
# Records

Types with named fields.  A record is written as an object with its fields in
order.  It is read from an object, in which the fields may stand in any order
among others that are skipped, or from an array of the fields in order.  A field
that stands twice is a fault as soon as its name is read.
-/

namespace LineArt.Json

/-- The fields of a type, listed in order; `F` names them. -/
structure Record (F : Type) where
  fields : List F
  name : F → String
  Content : F → Type
  form : (f : F) → Form (Content f)

namespace Record

variable {F : Type} [DecidableEq F] (R : Record F)

def field? (name : List Char) : Option F := R.fields.find? fun f => (R.name f).toList = name

abbrev Gathered := (f : F) → Option (R.Content f)

def none : R.Gathered := fun _ => Option.none

variable {R}

def Gathered.put (g : R.Gathered) (f : F) (a : R.Content f) : R.Gathered :=
  fun e => if h : e = f then some (h ▸ a) else g e

variable (R)

/-- Reads the members of an object after the fields already gathered. -/
def readMembers (depth : Nat) (ending : Ending) :
    R.Gathered → List (Quoted × Node) → Except Fault R.Gathered
  | g, [] => do
    ending.finish
    return g
  | g, (name, value) :: rest => do
    match R.field? (← name.chars) with
    | Option.none => do
      value.skip
      readMembers depth ending g rest
    | some f => do
      if (g f).isSome then .error .mismatch
      else do
        let a ← (R.form f).read depth value
        readMembers depth ending (g.put f a) rest

/-- Reads fields in order from the items of an array; `short` tells whether it may end early. -/
def readItems (depth : Nat) (short : Bool) : R.Gathered → List F → Items → Except Fault R.Gathered
  | g, [], items => do
    items.finish
    return g
  | g, f :: fields, items => do
    match ← items.next? with
    | some (node, items) => do
      let a ← (R.form f).read depth node
      readItems depth short (g.put f a) fields items
    | Option.none => if short then readItems depth short g fields items else .error .mismatch

def read (depth : Nat) (short : Bool) : Node → Except Fault R.Gathered
  | .object members ending => do
    let depth ← Node.enter depth
    R.readMembers depth ending R.none members
  | .array nodes ending => do
    let depth ← Node.enter depth
    R.readItems depth short R.none R.fields ⟨nodes, ending⟩
  | node => .error node.mistyped

def write (content : (f : F) → R.Content f) : Value :=
  .object (R.fields.map fun f => (R.name f, (R.form f).write (content f)))

end Record

def required {α : Type} : Option α → Except Fault α
  | some a => .ok a
  | none => .error .mismatch

end LineArt.Json
