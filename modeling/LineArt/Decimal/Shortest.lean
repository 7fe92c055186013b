import LineArt.Decimal.Numeral

/-!
# Shortest decimals

The shortest decimal that identifies a binary number among those of its format.
A number `m * 2 ^ e` owns the interval of reals that round to it, which reaches
half a step up and half a step down, the step down being half as long just
above a power of two; the ends belong to it when `m` is even.  The coarsest
decimal grid with a point in the interval gives the fewest digits, and of two
grid points in the interval the nearer one is taken.

All comparisons are between natural numbers: both the grid and the quarter step
of the binary format are multiplied by the powers that clear their denominators.
-/

namespace LineArt.Decimal

structure Scaled where
  significand : Nat
  exponent : Int
deriving DecidableEq

inductive Tie where
  | toEven
  | away
deriving DecidableEq

/-- The positive number `mantissa * 2 ^ exponent` of a binary format. -/
structure Binary where
  mantissa : Nat
  exponent : Int
  /-- Whether the next number below is only half a step away. -/
  closeBelow : Bool
deriving DecidableEq

namespace Binary

/-- The lower end of the interval, in quarter steps. -/
def lower (b : Binary) : Nat := if b.closeBelow then 4 * b.mantissa - 1 else 4 * b.mantissa - 2

/-- The upper end of the interval, in quarter steps. -/
def upper (b : Binary) : Nat := 4 * b.mantissa + 2

/-- The weight of a quarter step, measured against the grid `10 ^ k`. -/
def quarter (b : Binary) (k : Int) : Nat := Nat.pow 2 (b.exponent - 2).toNat * Nat.pow 10 (-k).toNat

/-- The weight of a grid step, measured against a quarter step. -/
def grid (b : Binary) (k : Int) : Nat := Nat.pow 10 k.toNat * Nat.pow 2 (2 - b.exponent).toNat

/-- Whether the grid point `n * 10 ^ k` rounds to the number. -/
def owns (b : Binary) (k : Int) (n : Nat) : Bool :=
  let low := b.lower * b.quarter k
  let high := b.upper * b.quarter k
  let point := n * b.grid k
  if b.mantissa % 2 = 0 then low ≤ point && point ≤ high else low < point && point < high

/-- The nearer of the grid points `n` and `n + 1` around the number. -/
def nearer (b : Binary) (tie : Tie) (k : Int) (n : Nat) : Nat :=
  let twice := 2 * (4 * b.mantissa * b.quarter k)
  let between := (2 * n + 1) * b.grid k
  if twice < between then n
  else if between < twice then n + 1
  else
    match tie with
    | .toEven => if n % 2 = 0 then n else n + 1
    | .away => n + 1

/-- The point to take on the grid `10 ^ k`, if any point of it rounds to the number. -/
def onGrid? (b : Binary) (tie : Tie) (k : Int) : Option Nat :=
  let n := 4 * b.mantissa * b.quarter k / b.grid k
  match b.owns k n, b.owns k (n + 1) with
  | true, true => some (b.nearer tie k n)
  | true, false => some n
  | false, true => some (n + 1)
  | false, false => none

def exactGrid (b : Binary) : Int := min b.exponent 0

def exact (b : Binary) : Scaled :=
  ⟨b.mantissa * Nat.pow 2 b.exponent.toNat * Nat.pow 5 (-b.exponent).toNat, b.exactGrid⟩

/-- The coarsest grid at most `n` places above the exact one that has a point to take. -/
def search (b : Binary) (tie : Tie) : Nat → Scaled
  | 0 => b.exact
  | n + 1 =>
    let k := b.exactGrid + (n + 1 : Nat)
    match b.onGrid? tie k with
    | some point => ⟨point, k⟩
    | none => search b tie n

def wholeDigits (b : Binary) : Nat :=
  (digits (b.mantissa * Nat.pow 2 b.exponent.toNat / Nat.pow 2 (-b.exponent).toNat)).length

/-- The shortest decimal that rounds to the number. -/
def shortest (b : Binary) (tie : Tie) : Scaled :=
  b.search tie (b.wholeDigits + (-b.exactGrid).toNat)

end Binary

end LineArt.Decimal
