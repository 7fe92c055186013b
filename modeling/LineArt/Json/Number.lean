import LineArt.Decimal.Rounding
import LineArt.Json.Fault

/-!
# Numbers of a JSON text

A numeral is read as a 64-bit integer where it is one and fits, and as a 64-bit
float otherwise.  The float is found in two roundings: the digits are taken up
into a 64-bit word for as long as they fit, and the word, as a float, is then
multiplied or divided by a power of ten.  A number beyond the range of 64-bit
floats is a fault; a 32-bit float is rounded from what was read and may overflow
to infinity.
-/

namespace LineArt.Json

/-! ### Reading numerals -/

def readFraction (text : List Char) : Except Fault (List Digit × List Char) :=
  match text with
  | '.' :: rest =>
    match Decimal.readDigits rest with
    | ([], []) => .error .truncated
    | ([], _ :: _) => .error .malformed
    | (d :: ds, rest) => .ok (d :: ds, rest)
  | _ => .ok ([], text)

/-- The sign and the digits of the exponent, which must not be empty once it is announced. -/
def readExponent (text : List Char) : Except Fault (Option (Bool × List Digit) × List Char) :=
  match text with
  | [] => .ok (none, [])
  | c :: rest =>
    if c = 'e' || c = 'E' then
      let (negative, rest) := Decimal.readSign rest
      match Decimal.readDigits rest with
      | ([], []) => .error .truncated
      | ([], _ :: _) => .error .malformed
      | (d :: ds, rest) => .ok (some (negative, d :: ds), rest)
    else .ok (none, c :: rest)

/-- The digits before the point: at least one, and no zero in front of another. -/
def readWhole (text : List Char) : Except Fault (List Digit × List Char) :=
  match Decimal.readDigits text with
  | ([], []) => .error .truncated
  | ([], _ :: _) => .error .malformed
  | (d :: e :: ds, rest) => if d.val = 0 then .error .malformed else .ok (d :: e :: ds, rest)
  | ([d], rest) => .ok ([d], rest)

def readMinus : List Char → Bool × List Char
  | '-' :: rest => (true, rest)
  | text => (false, text)

def readNumeral (text : List Char) : Except Fault (Numeral × List Char) := do
  let (negative, rest) := readMinus text
  let (whole, rest) ← readWhole rest
  let (fraction, rest) ← readFraction rest
  let (exponent, rest) ← readExponent rest
  return (⟨negative, whole, fraction, exponent⟩, rest)

/-! ### Numerals as numbers -/

inductive Number where
  | natural (n : Nat)
  /-- The number `-n`, which fits a signed 64-bit word and is not zero. -/
  | negative (n : Nat)
  | float (x : Float)

def wordBound : Nat := 0x10000000000000000

/-- The greatest number whose negative a signed 64-bit word holds. -/
def signedBound : Nat := 0x8000000000000000

/-- The word that digits make after the ones already taken up, for as long as it fits 64 bits,
and the digits that are left over. -/
def takeWord (word : Nat) : List Digit → Nat × List Digit
  | [] => (word, [])
  | d :: ds =>
    if word * 10 + d.val < wordBound then takeWord (word * 10 + d.val) ds else (word, d :: ds)

def powerOfTen (k : Nat) : Float := Float.ofScientific 1 false k

/-- The greatest power of ten that is a 64-bit float. -/
def greatestPower : Nat := 308

/-- A float divided by a power of ten, in steps that are floats themselves. -/
def divideByPower (x : Float) (k : Nat) : Float :=
  if k ≤ greatestPower then x / powerOfTen k
  else if x == 0 then x
  else divideByPower (x / powerOfTen greatestPower) (k - greatestPower)
termination_by k
decreasing_by simp only [greatestPower] at *; omega

/-- A float multiplied by a power of ten; beyond the range there is a fault. -/
def multiplyByPower (x : Float) (k : Nat) : Except Fault Float :=
  if k ≤ greatestPower then
    let y := x * powerOfTen k
    if y.isInf then .error .malformed else .ok y
  else if x == 0 then .ok x
  else .error .malformed

def scaleByPower (x : Float) (e : Int) : Except Fault Float :=
  if 0 ≤ e then multiplyByPower x e.toNat else .ok (divideByPower x (-e).toNat)

def exponentValue : Option (Bool × List Digit) → Int
  | none => 0
  | some (true, ds) => -(Decimal.value ds : Int)
  | some (false, ds) => Decimal.value ds

def numberOf (n : Numeral) : Except Fault Number :=
  let (word, dropped) := takeWord 0 n.whole
  if n.isInteger && dropped.isEmpty && !n.negative then .ok (.natural word)
  else if n.isInteger && dropped.isEmpty && 0 < word && word ≤ signedBound then .ok (.negative word)
  else
    let (word, unused) := takeWord word n.fraction
    let places := (n.fraction.length : Int) - unused.length
    (scaleByPower (Float.ofNat word) (dropped.length - places + exponentValue n.exponent)).map
      fun x => .float (if n.negative then -x else x)

def Number.toFloat32 : Number → Float32
  | natural n => nearest32 n 0
  | negative n => -nearest32 n 0
  | float x => x.toBinary32

end LineArt.Json
