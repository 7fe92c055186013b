import LineArt.Direction

/-!
# Tokens

The pattern language has one token per character.  `Token.ofChar` holds the
whole grammar; a character outside the alphabet is a token too, and makes the
pattern invalid.  A pattern is valid when it holds no such character.
-/

namespace LineArt

inductive WaypointAction where
  | define
  | jump
deriving DecidableEq

/-- The opening or the closing half of a pair of brackets. -/
inductive Half where
  | opening
  | closing
deriving DecidableEq

inductive Token where
  | digit (value : UInt8)
  | axis (direction : Direction)
  /-- A waypoint letter, always under its lowercase name. -/
  | waypoint (name : Char) (action : WaypointAction)
  /-- A parenthesis: inside a pair the pen is lifted. -/
  | blank (half : Half)
  /-- A square bracket: inside a pair the way is drawn as one connector. -/
  | capture (half : Half)
  | reset
  | space
  | invalid (char : Char)
deriving DecidableEq

/-- A character outside the pattern alphabet, with its position in characters. -/
structure InvalidToken where
  token : Char
  index : Nat
deriving DecidableEq

/-! ### Classes of characters -/

theorem isDigit_iff {c : Char} : c.isDigit ↔ 48 ≤ c.toNat ∧ c.toNat ≤ 57 :=
  Bool.and_eq_true_iff.trans (and_congr decide_eq_true_iff decide_eq_true_iff)

theorem isLower_iff {c : Char} : c.isLower ↔ 97 ≤ c.toNat ∧ c.toNat ≤ 122 :=
  Bool.and_eq_true_iff.trans (and_congr decide_eq_true_iff decide_eq_true_iff)

theorem isUpper_iff {c : Char} : c.isUpper ↔ 65 ≤ c.toNat ∧ c.toNat ≤ 90 :=
  decide_eq_true_iff

theorem toNat_toLower {c : Char} (h : c.isUpper) : c.toLower.toNat = c.toNat + 32 := by
  have hrange := isUpper_iff.1 h
  have hval : c.toLower.val = c.val + 32 := congrArg Char.val (dif_pos hrange)
  have hshift : (32 : UInt32).toNat = 32 := rfl
  rw [← Char.toNat_val, hval, UInt32.toNat_add, hshift, Char.toNat_val]
  omega

theorem not_isDigit_of_isLower {c : Char} (h : c.isLower) : ¬ c.isDigit := by
  rw [isLower_iff] at h
  rw [isDigit_iff]
  omega

theorem not_isUpper_of_isDigit {c : Char} (h : c.isDigit) : ¬ c.isUpper := by
  rw [isDigit_iff] at h
  rw [isUpper_iff]
  omega

theorem not_isUpper_of_isLower {c : Char} (h : c.isLower) : ¬ c.isUpper := by
  rw [isLower_iff] at h
  rw [isUpper_iff]
  omega

theorem isLower_toLower {c : Char} (h : c.isUpper) : c.toLower.isLower := by
  rw [isLower_iff, toNat_toLower h]
  rw [isUpper_iff] at h
  omega

namespace Token

def ofChar (c : Char) : Token :=
  if c.isDigit then .digit (c.toNat - '0'.toNat).toUInt8
  else if c.isLower then .waypoint c .define
  else if c.isUpper then .waypoint c.toLower .jump
  else
    match c with
    | '@' => .reset
    | '(' => .blank .opening
    | ')' => .blank .closing
    | '[' => .capture .opening
    | ']' => .capture .closing
    | ' ' | '\t' | '\r' | '\n' => .space
    | _ =>
      match Direction.ofSymbol? c with
      | some d => .axis d
      | none => .invalid c

def invalid? : Token → Option Char
  | .invalid c => some c
  | _ => none

@[simp] theorem ofChar_symbol (d : Direction) : ofChar d.symbol = .axis d := by
  cases d <;> decide

theorem ofSymbol?_of_ofChar {c : Char} {d : Direction} (h : ofChar c = .axis d) :
    Direction.ofSymbol? c = some d := by
  unfold ofChar at h
  repeat' split at h
  all_goals simp_all

end Token

/-- The tokens of a list of characters, numbered from a given position. -/
def tokensFrom (index : Nat) : List Char → List (Nat × Token)
  | [] => []
  | c :: rest => (index, Token.ofChar c) :: tokensFrom (index + 1) rest

def tokenize (pattern : String) : List (Nat × Token) := tokensFrom 0 pattern.toList

def firstInvalid? : List (Nat × Token) → Option InvalidToken
  | [] => none
  | (index, token) :: rest =>
    match token.invalid? with
    | some c => some ⟨c, index⟩
    | none => firstInvalid? rest

def validate (pattern : String) : Except InvalidToken Unit :=
  match firstInvalid? (tokenize pattern) with
  | some fault => .error fault
  | none => .ok ()

@[simp] theorem tokensFrom_nil (index : Nat) : tokensFrom index [] = [] := rfl

@[simp] theorem tokensFrom_cons (index : Nat) (c : Char) (cs : List Char) :
    tokensFrom index (c :: cs) = (index, Token.ofChar c) :: tokensFrom (index + 1) cs := rfl

theorem tokensFrom_append (index : Nat) (cs ds : List Char) :
    tokensFrom index (cs ++ ds) = tokensFrom index cs ++ tokensFrom (index + cs.length) ds := by
  induction cs generalizing index with
  | nil => simp
  | cons c cs ih =>
    simp only [List.cons_append, tokensFrom_cons, ih, List.length_cons]
    rw [show index + 1 + cs.length = index + (cs.length + 1) by omega]

theorem firstInvalid?_append (xs ys : List (Nat × Token)) :
    firstInvalid? (xs ++ ys) = (firstInvalid? xs).or (firstInvalid? ys) := by
  induction xs with
  | nil => simp [firstInvalid?]
  | cons x xs ih =>
    obtain ⟨index, token⟩ := x
    simp only [List.cons_append, firstInvalid?]
    split
    · rfl
    · exact ih

end LineArt
