import LineArt.Direction

/-!
# Symmetries

Mirrors and quarter turns of the plane, applied to pattern text.  A symmetry
relabels the four direction symbols, all at once, and leaves every other
character where it is, so no symbol is relabelled twice.
-/

namespace LineArt

inductive Symmetry where
  | identity
  | mirrorHorizontal
  | mirrorVertical
  | rotate90
  | rotate180
  | rotate270
deriving DecidableEq

namespace Symmetry

def all : List Symmetry :=
  [identity, mirrorHorizontal, mirrorVertical, rotate90, rotate180, rotate270]

def name : Symmetry → String
  | identity => "identity"
  | mirrorHorizontal => "mirror-horizontal"
  | mirrorVertical => "mirror-vertical"
  | rotate90 => "rotate90"
  | rotate180 => "rotate180"
  | rotate270 => "rotate270"

def ofName? (name : String) : Option Symmetry := all.find? (fun s => s.name = name)

/-- A quarter turn from the x axis towards the y axis. -/
def quarterTurn : Direction → Direction
  | .posX => .posY
  | .posY => .negX
  | .negX => .negY
  | .negY => .posX

def map : Symmetry → Direction → Direction
  | identity, d => d
  | mirrorHorizontal, .posX => .negX
  | mirrorHorizontal, .negX => .posX
  | mirrorHorizontal, d => d
  | mirrorVertical, .posY => .negY
  | mirrorVertical, .negY => .posY
  | mirrorVertical, d => d
  | rotate90, d => quarterTurn d
  | rotate180, d => quarterTurn (quarterTurn d)
  | rotate270, d => quarterTurn (quarterTurn (quarterTurn d))

def inverse : Symmetry → Symmetry
  | rotate90 => rotate270
  | rotate270 => rotate90
  | s => s

/-- Old symbol to new symbol, one entry per direction. -/
def table (s : Symmetry) : List (Char × Char) :=
  Direction.all.map fun d => (d.symbol, (s.map d).symbol)

/-- What the first entry for a character gives, or else the character. -/
def relabel (table : List (Char × Char)) (c : Char) : Char :=
  match table.find? fun entry => entry.1 = c with
  | some entry => entry.2
  | none => c

def apply (s : Symmetry) (pattern : String) : String :=
  if s = identity then pattern
  else String.ofList (pattern.toList.map (relabel s.table))

/-- Several symmetries applied to a pattern, left to right. -/
def applyAll (ss : List Symmetry) (pattern : String) : String :=
  ss.foldl (fun text s => s.apply text) pattern

/-- Where a symmetry sends a single character. -/
def onChar (s : Symmetry) (c : Char) : Char :=
  match Direction.ofSymbol? c with
  | some d => (s.map d).symbol
  | none => c

@[simp] theorem inverse_map_map (s : Symmetry) (d : Direction) :
    s.inverse.map (s.map d) = d := by
  cases s <;> cases d <;> rfl

theorem map_opposite (s : Symmetry) (d : Direction) :
    s.map d.opposite = (s.map d).opposite := by
  cases s <;> cases d <;> rfl

@[simp] theorem onChar_symbol (s : Symmetry) (d : Direction) :
    s.onChar d.symbol = (s.map d).symbol := by
  simp [onChar]

theorem onChar_of_none {c : Char} (s : Symmetry) (h : Direction.ofSymbol? c = none) :
    s.onChar c = c := by
  simp [onChar, h]

@[simp] theorem inverse_onChar_onChar (s : Symmetry) (c : Char) :
    s.inverse.onChar (s.onChar c) = c := by
  cases h : Direction.ofSymbol? c with
  | none => rw [onChar_of_none s h, onChar_of_none s.inverse h]
  | some d =>
    rw [← Direction.symbol_of_ofSymbol? h, onChar_symbol, onChar_symbol, inverse_map_map]

theorem onChar_identity (c : Char) : onChar identity c = c := by
  cases h : Direction.ofSymbol? c with
  | none => exact onChar_of_none identity h
  | some d =>
    rw [← Direction.symbol_of_ofSymbol? h, onChar_symbol]
    rfl

theorem relabel_table (s : Symmetry) (c : Char) : relabel s.table c = s.onChar c := by
  cases h : Direction.ofSymbol? c with
  | none =>
    have hnone : s.table.find? (fun entry => entry.1 = c) = none := by
      simp only [table, Direction.all, List.find?_eq_none, List.forall_mem_map, decide_eq_true_eq]
      rintro d - rfl
      simp at h
    rw [onChar_of_none s h, relabel, hnone]
  | some d =>
    rw [← Direction.symbol_of_ofSymbol? h, onChar_symbol]
    cases d <;> rfl

/-- A pattern is relabelled character by character, by no symmetry in a way of its own. -/
theorem apply_eq (s : Symmetry) (pattern : String) :
    s.apply pattern = String.ofList (pattern.toList.map s.onChar) := by
  unfold apply
  split
  · rename_i h
    rw [h, List.map_congr_left (g := id) fun c _ => onChar_identity c]
    simp
  · rw [funext (relabel_table s)]

@[simp] theorem toList_apply (s : Symmetry) (pattern : String) :
    (s.apply pattern).toList = pattern.toList.map s.onChar := by
  simp [apply_eq]

@[simp] theorem inverse_apply_apply (s : Symmetry) (pattern : String) :
    s.inverse.apply (s.apply pattern) = pattern := by
  have h : s.inverse.onChar ∘ s.onChar = id := funext (inverse_onChar_onChar s)
  simp [apply_eq, h]

@[simp] theorem applyAll_nil (pattern : String) : applyAll [] pattern = pattern := rfl

@[simp] theorem applyAll_cons (s : Symmetry) (ss : List Symmetry) (pattern : String) :
    applyAll (s :: ss) pattern = applyAll ss (s.apply pattern) := rfl

theorem applyAll_append (ss ts : List Symmetry) (pattern : String) :
    applyAll (ss ++ ts) pattern = applyAll ts (applyAll ss pattern) := List.foldl_append

end Symmetry

end LineArt
