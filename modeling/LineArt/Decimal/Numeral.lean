/-!
# Numerals

Decimal numbers as they are written: a sign, the digits before and after the
point, and possibly an exponent.  A numeral keeps its digits as written, so two
numerals of one value can differ.
-/

namespace LineArt

abbrev Digit := Fin 10

def Digit.toChar (d : Digit) : Char := Char.ofNat ('0'.toNat + d.val)

def Digit.ofChar? (c : Char) : Option Digit :=
  if h : 48 ≤ c.toNat ∧ c.toNat < 58 then some ⟨c.toNat - 48, by omega⟩ else none

theorem Digit.ofChar?_toChar (d : Digit) : Digit.ofChar? d.toChar = some d := by
  revert d
  decide

namespace Decimal

def digits (n : Nat) : List Digit :=
  if h : n < 10 then [⟨n, h⟩]
  else digits (n / 10) ++ [⟨n % 10, Nat.mod_lt n (by decide)⟩]
termination_by n
decreasing_by omega

/-- The natural number that a list of digits writes, after some digits already read. -/
def valueFrom (n : Nat) (ds : List Digit) : Nat := ds.foldl (fun n d => n * 10 + d.val) n

def value (ds : List Digit) : Nat := valueFrom 0 ds

def readDigits : List Char → List Digit × List Char
  | [] => ([], [])
  | c :: rest =>
    match Digit.ofChar? c with
    | some d =>
      let (ds, rest) := readDigits rest
      (d :: ds, rest)
    | none => ([], c :: rest)

theorem digits_ne_nil (n : Nat) : digits n ≠ [] := by
  rw [digits]
  split <;> simp

theorem valueFrom_append (n : Nat) (ds es : List Digit) :
    valueFrom n (ds ++ es) = valueFrom (valueFrom n ds) es := List.foldl_append

theorem value_digits (n : Nat) : value (digits n) = n := by
  fun_induction digits n with
  | case1 n h => simp [value, valueFrom]
  | case2 n h ih =>
    unfold value at ih ⊢
    rw [valueFrom_append, ih]
    simp only [valueFrom, List.foldl_cons, List.foldl_nil]
    omega

def EndsDigits (rest : List Char) : Prop := ∀ c ∈ rest.head?, Digit.ofChar? c = none

theorem readDigits_append (ds : List Digit) {rest : List Char} (h : EndsDigits rest) :
    readDigits (ds.map Digit.toChar ++ rest) = (ds, rest) := by
  induction ds with
  | nil =>
    cases rest with
    | nil => rfl
    | cons c cs =>
      have hc : Digit.ofChar? c = none := h c (by simp)
      simp [readDigits, hc]
  | cons d ds ih =>
    simp only [List.map_cons, List.cons_append, readDigits, Digit.ofChar?_toChar, ih]

end Decimal

structure Numeral where
  negative : Bool
  whole : List Digit
  /-- The digits after the point; there is no point where there are none. -/
  fraction : List Digit
  /-- The sign and the digits of the exponent, if there is one. -/
  exponent : Option (Bool × List Digit)
deriving DecidableEq

namespace Numeral

def ofNat (n : Nat) : Numeral := ⟨false, Decimal.digits n, [], none⟩

def isInteger (n : Numeral) : Bool := n.fraction.isEmpty && n.exponent.isNone

def exponentText : Option (Bool × List Digit) → List Char
  | none => []
  | some (negative, ds) => 'e' :: (if negative then '-' else '+') :: ds.map Digit.toChar

def fractionText : List Digit → List Char
  | [] => []
  | d :: ds => '.' :: (d :: ds).map Digit.toChar

def text (n : Numeral) : List Char :=
  (if n.negative then ['-'] else []) ++ n.whole.map Digit.toChar
    ++ fractionText n.fraction ++ exponentText n.exponent

end Numeral

end LineArt
