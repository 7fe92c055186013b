import LineArt.Json.Number
import LineArt.Json.Quoted

/-!
# Nodes of a JSON text

A text is first read into a tree without regard to any type.  Where the text
stops being JSON the tree breaks off and holds the fault.  A type is then read
from the tree in the order of the text, so the first fault met decides, be it a
fault of the text or of the type.

Strings and numbers keep how they were written: a reader that has to get past a
value (`Node.skip`) accepts halves of pairs and numbers of any size, one that
takes a value as a whole (`Node.check`) does not.  Containers may be nested up to a
limit, except in values that are only got past.
-/

namespace LineArt.Json

inductive Word where
  | null
  | true
  | false
deriving DecidableEq

inductive Ending where
  | closed
  /-- A fault, at a place where a comma or the closing bracket was due. -/
  | broken (f : Fault)
  /-- A fault behind a comma, where no item or member begins. -/
  | dangling (f : Fault)
  /-- In place of the first name of an object, something else; reading a string there
  gives the fault. -/
  | nameless (f : Fault)
deriving DecidableEq

/-- A value of a text, or what is left of it where the text breaks off. -/
inductive Node where
  | missing (f : Fault)
  | word (w : Except Fault Word)
  | number (n : Except Fault Numeral)
  | string (q : Quoted)
  | array (items : List Node) (ending : Ending)
  | object (members : List (Quoted × Node)) (ending : Ending)

/-! ### Reading a text into a tree -/

/-- The rest of a word that its first letter announced, compared letter by letter. -/
def readLetters : List Char → List Char → Except Fault (List Char)
  | [], rest => .ok rest
  | _ :: _, [] => .error .truncated
  | l :: ls, c :: rest => if l = c then readLetters ls rest else .error .malformed

def readWord (w : Word) (letters : List Char) (rest : List Char) : Node × Option (List Char) :=
  match readLetters letters rest with
  | .ok rest => (.word (.ok w), some rest)
  | .error f => (.word (.error f), none)

def readNumber (text : List Char) : Node × Option (List Char) :=
  match readNumeral text with
  | .ok (n, rest) => (.number (.ok n), some rest)
  | .error f => (.number (.error f), none)

def faultAt : List Char → Fault
  | [] => .truncated
  | _ :: _ => .malformed

/-- What reading a string from a node gives, where the node is none. -/
def Node.notText : Node → Fault
  | missing f => f
  | word (.error f) => f
  | word (.ok _) => .mismatch
  | number (.error f) => f
  | number (.ok n) =>
    match numberOf n with
    | .error f => f
    | .ok _ => .mismatch
  | string q =>
    match q.chars with
    | .error f => f
    | .ok _ => .mismatch
  | array _ _ => .mismatch
  | object _ _ => .mismatch

mutual

/-- The value at the front of a text, and what follows it where it is complete.  The number
bounds the depth of the recursion. -/
def readNode : Nat → List Char → Node × Option (List Char)
  | 0, _ => (.missing .truncated, none)
  | n + 1, text =>
    match skipBlanks text with
    | [] => (.missing .truncated, none)
    | c :: rest =>
      if c = '[' then
        let (items, ending, rest) := readItems n rest
        (.array items ending, rest)
      else if c = '\x7b' then
        let (members, ending, rest) := readMembers n rest
        (.object members ending, rest)
      else if c = '"' then
        let (q, rest) := Quoted.read rest
        (.string q, rest)
      else if c = 'n' then readWord .null "ull".toList rest
      else if c = 't' then readWord .true "rue".toList rest
      else if c = 'f' then readWord .false "alse".toList rest
      else if c = '-' || (Digit.ofChar? c).isSome then readNumber (c :: rest)
      else (.missing .malformed, none)

def readItems : Nat → List Char → List Node × Ending × Option (List Char)
  | 0, _ => ([], .broken .truncated, none)
  | n + 1, text =>
    match skipBlanks text with
    | [] => ([], .broken .truncated, none)
    | c :: rest =>
      if c = ']' then ([], .closed, some rest) else readItemsFrom n (c :: rest)

def readItemsFrom : Nat → List Char → List Node × Ending × Option (List Char)
  | 0, _ => ([], .broken .truncated, none)
  | n + 1, text =>
    match readNode n text with
    | (item, none) => ([item], .broken .malformed, none)
    | (item, some rest) =>
      match skipBlanks rest with
      | [] => ([item], .broken .truncated, none)
      | c :: rest =>
        if c = ']' then ([item], .closed, some rest)
        else if c = ',' then
          match skipBlanks rest with
          | [] => ([item], .dangling .truncated, none)
          | d :: rest =>
            if d = ']' then ([item], .dangling .malformed, none)
            else
              let (items, ending, rest) := readItemsFrom n (d :: rest)
              (item :: items, ending, rest)
        else ([item], .broken .malformed, none)

def readMembers : Nat → List Char → List (Quoted × Node) × Ending × Option (List Char)
  | 0, _ => ([], .broken .truncated, none)
  | n + 1, text =>
    match skipBlanks text with
    | [] => ([], .broken .truncated, none)
    | c :: rest =>
      if c = '\x7d' then ([], .closed, some rest)
      else if c = '"' then readMembersFrom n rest
      else ([], .nameless (readNode n (c :: rest)).1.notText, none)

/-- A member whose name has been opened, and those after it. -/
def readMembersFrom : Nat → List Char → List (Quoted × Node) × Ending × Option (List Char)
  | 0, _ => ([], .broken .truncated, none)
  | n + 1, text =>
    match Quoted.read text with
    | (name, none) => ([(name, .missing .malformed)], .broken .malformed, none)
    | (name, some rest) =>
      match skipBlanks rest with
      | ':' :: rest =>
        match readNode n rest with
        | (value, none) => ([(name, value)], .broken .malformed, none)
        | (value, some rest) =>
          match skipBlanks rest with
          | [] => ([(name, value)], .broken .truncated, none)
          | c :: rest =>
            if c = '\x7d' then ([(name, value)], .closed, some rest)
            else if c = ',' then
              match skipBlanks rest with
              | '"' :: rest =>
                let (members, ending, rest) := readMembersFrom n rest
                ((name, value) :: members, ending, rest)
              | rest => ([(name, value)], .dangling (faultAt rest), none)
            else ([(name, value)], .broken .malformed, none)
      | rest => ([(name, .missing (faultAt rest))], .broken .malformed, none)

end

/-- The value at the front of a text, and what follows it where it is complete. -/
def Node.read (text : List Char) : Node × Option (List Char) := readNode (3 * text.length + 3) text

/-! ### Getting past a value -/

def Ending.finish : Ending → Except Fault Unit
  | closed => .ok ()
  | broken f => .error f
  | dangling f => .error f
  | nameless _ => .error .malformed

namespace Node

mutual

def skip : Node → Except Fault Unit
  | missing f => .error f
  | word w => w.map fun _ => ()
  | number (.error _) => .error .malformed
  | number (.ok _) => .ok ()
  | string q => q.skip
  | array items ending => do
    skipItems items
    ending.finish
  | object members ending => do
    skipMembers members
    ending.finish

/-- What keeps a reader from getting past the items of an array. -/
def skipItems : List Node → Except Fault Unit
  | [] => .ok ()
  | item :: items => do
    skip item
    skipItems items

/-- What keeps a reader from getting past the members of an object. -/
def skipMembers : List (Quoted × Node) → Except Fault Unit
  | [] => .ok ()
  | (name, value) :: members => do
    name.skip
    skip value
    skipMembers members

end

/-! ### Taking a value as a whole -/

def enter (depth : Nat) : Except Fault Nat :=
  if depth ≤ 1 then .error .malformed else .ok (depth - 1)

mutual

/-- What keeps a reader from taking a value as a whole, at a depth still to go. -/
def check (depth : Nat) : Node → Except Fault Unit
  | missing f => .error f
  | word w => w.map fun _ => ()
  | number n => do
    let _ ← numberOf (← n)
  | string q => q.chars.map fun _ => ()
  | array items ending => do
    let depth ← enter depth
    checkItems depth items
    ending.finish
  | object members ending => do
    let depth ← enter depth
    checkMembers depth members
    ending.finish

/-- What keeps a reader from taking the items of an array. -/
def checkItems (depth : Nat) : List Node → Except Fault Unit
  | [] => .ok ()
  | item :: items => do
    check depth item
    checkItems depth items

/-- What keeps a reader from taking the members of an object. -/
def checkMembers (depth : Nat) : List (Quoted × Node) → Except Fault Unit
  | [] => .ok ()
  | (name, value) :: members => do
    let _ ← name.chars
    check depth value
    checkMembers depth members

end

end Node

end LineArt.Json
