import LineArt.Point

/-!
# Bounds

The box a cursor has travelled in.  It starts as a single point and grows to
take in one point at a time.
-/

namespace LineArt

/-- An axis-aligned box, given by its least and its greatest corner. -/
structure Bounds (α : Type) where
  min : Point α
  max : Point α
deriving DecidableEq

namespace Bounds

variable {α : Type}

def ofPoint (p : Point α) : Bounds α := ⟨p, p⟩

variable [Scalar α]

def insert (b : Bounds α) (p : Point α) : Bounds α := ⟨b.min.least p, b.max.greatest p⟩

def insertAll (b : Bounds α) (ps : List (Point α)) : Bounds α := ps.foldl insert b

/-- The box spanned by two opposite corners, whichever two they are. -/
def ofCorners (p q : Point α) : Bounds α := ⟨p.least q, p.greatest q⟩

def rect (b : Bounds α) : Bounds α := ofCorners b.min b.max

def middle (b : Bounds α) : Point α := (b.min + b.max).scale Scalar.half

/-- The center of the box, its corners put in order first. -/
def center (b : Bounds α) : Point α := b.rect.middle

def width (b : Bounds α) : α := b.max.x - b.min.x

def height (b : Bounds α) : α := b.max.y - b.min.y

@[simp] theorem insertAll_nil (b : Bounds α) : b.insertAll [] = b := rfl

@[simp] theorem insertAll_cons (b : Bounds α) (p : Point α) (ps : List (Point α)) :
    b.insertAll (p :: ps) = (b.insert p).insertAll ps := rfl

end Bounds

end LineArt
