import LineArt.Point

/-!
# Directions

The four unit moves, each with its pattern symbol.  `ofSymbol?` and `symbol`
are inverse to each other on the four symbols, and nothing else is a move.
-/

namespace LineArt

inductive Direction where
  | posX
  | negX
  | posY
  | negY
deriving DecidableEq

namespace Direction

def all : List Direction := [posX, negX, posY, negY]

def symbol : Direction → Char
  | posX => '.'
  | negX => '-'
  | posY => '|'
  | negY => '/'

def ofSymbol? : Char → Option Direction
  | '.' => some posX
  | '-' => some negX
  | '|' => some posY
  | '/' => some negY
  | _ => none

/-- The displacement of a move before it is scaled by the step. -/
def unit {α : Type} [Scalar α] : Direction → Point α
  | posX => ⟨Scalar.one, Scalar.zero⟩
  | negX => ⟨-Scalar.one, Scalar.zero⟩
  | posY => ⟨Scalar.zero, Scalar.one⟩
  | negY => ⟨Scalar.zero, -Scalar.one⟩

def opposite : Direction → Direction
  | posX => negX
  | negX => posX
  | posY => negY
  | negY => posY

theorem mem_all (d : Direction) : d ∈ all := by
  cases d <;> decide

@[simp] theorem ofSymbol?_symbol (d : Direction) : ofSymbol? d.symbol = some d := by
  cases d <;> rfl

theorem symbol_of_ofSymbol? {c : Char} {d : Direction} (h : ofSymbol? c = some d) :
    d.symbol = c := by
  unfold ofSymbol? at h
  split at h <;> simp_all [symbol] <;> subst h <;> rfl

theorem symbol_injective {d e : Direction} (h : d.symbol = e.symbol) : d = e := by
  have he : ofSymbol? d.symbol = some e := by
    rw [h]
    exact ofSymbol?_symbol e
  exact Option.some.inj ((ofSymbol?_symbol d).symm.trans he)

end Direction

end LineArt
