import LineArt.Json.Node
import LineArt.Json.Value

/-!
# JSON forms

The JSON form of a type is a writer, which gives a value, and a reader, which
takes a node at a depth still to go.  This module holds the forms of the basic
types and the two general shapes: arrays of fixed length and variants.
-/

namespace LineArt.Json

class Form (α : Type) where
  write : α → Value
  read : Nat → Node → Except Fault α

/-- How deep containers may be nested, the text itself counted as one level. -/
def depthLimit : Nat := 128

def decode {α : Type} [Form α] (text : String) : Except Fault α := do
  let (node, rest) := Node.read text.toList
  let value ← Form.read depthLimit node
  match rest with
  | some rest => if (skipBlanks rest).isEmpty then return value else .error .malformed
  | none => .error .malformed

def encode {α : Type} [Form α] (a : α) : String := (Form.write a).compactText

/-! ### Basic types -/

namespace Node

abbrev mistyped (node : Node) : Fault := node.notText

def chars : Node → Except Fault (List Char)
  | string q => q.chars
  | node => .error node.mistyped

def numeric : Node → Except Fault Number
  | number n => do numberOf (← n)
  | node => .error node.mistyped

def nothing : Node → Except Fault Unit
  | word (.ok .null) => .ok ()
  | node => .error node.mistyped

def natBelow (bound : Nat) (node : Node) : Except Fault Nat := do
  match ← node.numeric with
  | .natural n => if n < bound then return n else .error .mismatch
  | _ => .error .mismatch

end Node

instance : Form String where
  write := .string
  read := fun _ node => node.chars.map String.ofList

instance : Form Char where
  write := fun c => .string (String.ofList [c])
  read := fun _ node => do
    match ← node.chars with
    | [c] => return c
    | _ => .error .mismatch

instance : Form UInt8 where
  write := fun n => .nat n.toNat
  read := fun _ node => (node.natBelow 0x100).map UInt8.ofNat

instance : Form UInt32 where
  write := fun n => .nat n.toNat
  read := fun _ node => (node.natBelow 0x100000000).map UInt32.ofNat

/-- A float takes any number, also one beyond its range. -/
instance : Form Float32 where
  write := .float
  read := fun _ node => node.numeric.map Number.toFloat32

/-- What is absent is null. -/
instance {α : Type} [Form α] : Form (Option α) where
  write
    | none => .null
    | some a => Form.write a
  read depth
    | .word (.ok .null) => .ok none
    | node => (Form.read depth node).map some

/-! ### Arrays -/

structure Items where
  nodes : List Node
  ending : Ending

namespace Items

def next? (items : Items) : Except Fault (Option (Node × Items)) :=
  match items.nodes with
  | node :: nodes => .ok (some (node, { items with nodes }))
  | [] => do
    items.ending.finish
    return none

def next (items : Items) : Except Fault (Node × Items) := do
  match ← items.next? with
  | some item => return item
  | none => .error .mismatch

/-- Accepts the end of an array that may hold nothing more. -/
def finish (items : Items) : Except Fault Unit :=
  match items.nodes, items.ending with
  | [], .closed => .ok ()
  | [], .broken f => .error f
  | _, _ => .error .malformed

end Items

def Node.items (depth : Nat) : Node → Except Fault (Nat × Items)
  | array nodes ending => do
    let depth ← enter depth
    return (depth, ⟨nodes, ending⟩)
  | node => .error node.mistyped

def readPair {α β : Type} [Form α] [Form β] (depth : Nat) (node : Node) :
    Except Fault (α × β) := do
  let (depth, items) ← node.items depth
  let (first, items) ← items.next
  let a ← Form.read depth first
  let (second, items) ← items.next
  let b ← Form.read depth second
  items.finish
  return (a, b)

def readExactly {α : Type} [Form α] (depth : Nat) : (n : Nat) → Items → Except Fault (Vector α n)
  | 0, items => do
    items.finish
    return #v[]
  | n + 1, items => do
    let (node, items) ← items.next
    let a ← Form.read depth node
    let rest ← readExactly depth n items
    return ⟨#[a] ++ rest.toArray, by simp; omega⟩

def readAll {α : Type} [Form α] (depth : Nat) (ending : Ending) :
    List Node → Except Fault (List α)
  | [] => do
    ending.finish
    return []
  | node :: nodes => do
    let a ← Form.read depth node
    let rest ← readAll depth ending nodes
    return a :: rest

instance {α : Type} [Form α] : Form (List α) where
  write := fun as => .array (as.map Form.write)
  read depth node := do
    let (depth, items) ← node.items depth
    readAll depth items.ending items.nodes

instance {α : Type} [Form α] {n : Nat} : Form (Vector α n) where
  write := fun as => .array (as.toList.map Form.write)
  read depth node := do
    let (depth, items) ← node.items depth
    readExactly depth n items

/-! ### Variants -/

inductive Variant (α : Type) where
  /-- Nothing: the name alone, or the name with null. -/
  | plain (a : α)
  | holding (read : Nat → Node → Except Fault α)

def Variant.find {α : Type} (variants : List (String × Variant α)) (name : List Char) :
    Except Fault (Variant α) :=
  match variants.find? (fun v => v.1.toList = name) with
  | some v => .ok v.2
  | none => .error .mismatch

/-- Reads a variant: its name as a string, or an object with the name and the data. -/
def readVariant {α : Type} (variants : List (String × Variant α)) (depth : Nat) :
    Node → Except Fault α
  | .missing f => .error f
  | .string q => do
    match ← Variant.find variants (← q.chars) with
    | .plain a => return a
    | .holding _ => .error .mismatch
  | .object members ending => do
    let depth ← Node.enter depth
    match members, ending with
    | [], .broken f => .error f
    | [], .nameless f => .error f
    | [], _ => .error .malformed
    | (name, data) :: rest, ending =>
      let a ← match ← Variant.find variants (← name.chars) with
        | .plain a => do
          data.nothing
          pure a
        | .holding read => read depth data
      match rest, ending with
      | [], .closed => return a
      | [], .broken f => .error f
      | _, _ => .error .malformed
  | _ => .error .malformed

def writeHolding (name : String) (data : Value) : Value := .object [(name, data)]

def plainVariants {α : Type} (name : α → String) (all : List α) : List (String × Variant α) :=
  all.map fun a => (name a, .plain a)

end LineArt.Json
