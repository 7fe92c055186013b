import LineArt.Decimal.Numeral

/-!
# Rounding decimals to floats

Two ways from written digits to a 32-bit float.  `floatOfText?` reads an
argument and rounds its exact value once.  `Float.toBinary32` rounds a number
that was already rounded to 64 bits.
-/

open Float.Model (UnpackedFloat)

/-- The 32-bit float nearest to a 64-bit one, ties to the even mantissa. -/
def Float.toBinary32 (x : Float) : Float32 :=
  match x.toModel.unpack with
  | .finite s mantissa exponent _ =>
    Float32.ofModel (Float32.Model.pack (UnpackedFloat.round .binary32 s mantissa exponent))
  | other => Float32.ofModel (Float32.Model.pack other)

namespace LineArt

def nearest32 (n : Nat) (e : Int) : Float32 :=
  Float32.ofScientific n (e < 0) e.natAbs

def signed32 (negative : Bool) (x : Float32) : Float32 := if negative then -x else x

namespace Decimal

def readSign : List Char → Bool × List Char
  | '-' :: rest => (true, rest)
  | '+' :: rest => (false, rest)
  | text => (false, text)

/-- The exponent that ends a text; a text that ends before it has the exponent zero. -/
def readExponent? : List Char → Option Int
  | [] => some 0
  | c :: rest =>
    if c = 'e' || c = 'E' then
      let (negative, rest) := readSign rest
      match readDigits rest with
      | ([], _) => none
      | (ds, []) => some (if negative then -(value ds : Int) else value ds)
      | (_, _ :: _) => none
    else none

def readFraction : List Char → List Digit × List Char
  | '.' :: rest => readDigits rest
  | text => ([], text)

def readMagnitude? (text : List Char) : Option Float32 :=
  let (whole, rest) := readDigits text
  let (fraction, rest) := readFraction rest
  if whole.isEmpty && fraction.isEmpty then none
  else
    (readExponent? rest).map fun e =>
      nearest32 (value (whole ++ fraction)) (e - fraction.length)

def readWord? (text : List Char) : Option Float32 :=
  let word := text.map Char.toLower
  if word = "inf".toList || word = "infinity".toList then some (Float32.ofBits 0x7F800000)
  else if word = "nan".toList then some (Float32.ofBits 0x7FC00000)
  else none

def readFloat? (text : List Char) : Option Float32 :=
  let (negative, rest) := readSign text
  ((readMagnitude? rest).or (readWord? rest)).map (signed32 negative)

end Decimal

/-- The 32-bit float that a text writes, the exact value rounded once. -/
def floatOfText? (text : String) : Option Float32 := Decimal.readFloat? text.toList

end LineArt
