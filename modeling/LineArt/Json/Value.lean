import LineArt.Decimal.Layout
import LineArt.Json.Quoted

/-!
# JSON values and their text

Values as they are written, either compact or laid out over lines with two
spaces of indent.  The members of an object keep their order.

A float is written by the shortest decimal that identifies it, with a point; the
exponent is shown where its leading digit is below the sixth decimal place or
above the thirteenth place before the point.  What is not finite is null.
-/

namespace LineArt.Json

inductive Value where
  | null
  | bool (b : Bool)
  | number (n : Numeral)
  | string (s : String)
  | array (items : List Value)
  | object (members : List (String × Value))

namespace Value

def floatLayout : Decimal.Layout where
  tie := .toEven
  positional := fun e => -6 ≤ e && e ≤ 12
  pointed := true

/-- A float, or null where it is not finite. -/
def float (x : Float32) : Value :=
  match floatLayout.numeral? x with
  | some n => .number n
  | none => .null

def nat (n : Nat) : Value := .number (.ofNat n)

def separated (separator : List Char) : List (List Char) → List Char
  | [] => []
  | [t] => t
  | t :: u :: ts => t ++ separator ++ separated separator (u :: ts)

def boolText (b : Bool) : List Char := if b then "true".toList else "false".toList

mutual

def compact : Value → List Char
  | null => "null".toList
  | bool b => boolText b
  | number n => n.text
  | string s => quote s.toList
  | array items => '[' :: separated [','] (compactItems items) ++ [']']
  | object members => '\x7b' :: separated [','] (compactMembers members) ++ ['\x7d']

def compactItems : List Value → List (List Char)
  | [] => []
  | v :: vs => compact v :: compactItems vs

def compactMembers : List (String × Value) → List (List Char)
  | [] => []
  | (name, v) :: ms => (quote name.toList ++ ':' :: compact v) :: compactMembers ms

end

def newline (depth : Nat) : List Char := '\n' :: List.replicate (2 * depth) ' '

/-- The lines between two brackets, the closing one on a line of its own. -/
def block (opening closing : Char) (depth : Nat) (lines : List (List Char)) : List Char :=
  if lines.isEmpty then [opening, closing]
  else
    opening :: newline (depth + 1) ++ separated (',' :: newline (depth + 1)) lines
      ++ newline depth ++ [closing]

mutual

def indented (depth : Nat) : Value → List Char
  | null => "null".toList
  | bool b => boolText b
  | number n => n.text
  | string s => quote s.toList
  | array items => block '[' ']' depth (indentedItems (depth + 1) items)
  | object members => block '\x7b' '\x7d' depth (indentedMembers (depth + 1) members)

def indentedItems (depth : Nat) : List Value → List (List Char)
  | [] => []
  | v :: vs => indented depth v :: indentedItems depth vs

def indentedMembers (depth : Nat) : List (String × Value) → List (List Char)
  | [] => []
  | (name, v) :: ms =>
    (quote name.toList ++ ':' :: ' ' :: indented depth v) :: indentedMembers depth ms

end

def compactText (v : Value) : String := String.ofList v.compact

def prettyText (v : Value) : String := String.ofList (v.indented 0)

end Value

end LineArt.Json
