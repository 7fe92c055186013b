import LineArt.Scalar

/-!
# Points

Points of the plane with the componentwise operations a run needs.  Every
operation acts on both components, also on the one a move leaves idle.
-/

namespace LineArt

structure Point (α : Type) where
  x : α
  y : α
deriving DecidableEq

namespace Point

variable {α : Type}

def splat (v : α) : Point α := ⟨v, v⟩

variable [Scalar α]

/-- The corner of the canvas from which it extends. -/
def origin : Point α := splat Scalar.zero

instance : Add (Point α) := ⟨fun p q => ⟨p.x + q.x, p.y + q.y⟩⟩

instance : Sub (Point α) := ⟨fun p q => ⟨p.x - q.x, p.y - q.y⟩⟩

instance : Mul (Point α) := ⟨fun p q => ⟨p.x * q.x, p.y * q.y⟩⟩

def scale (p : Point α) (k : α) : Point α := ⟨p.x * k, p.y * k⟩

def least (p q : Point α) : Point α := ⟨Scalar.least p.x q.x, Scalar.least p.y q.y⟩

def greatest (p q : Point α) : Point α := ⟨Scalar.greatest p.x q.x, Scalar.greatest p.y q.y⟩

@[simp] theorem add_x (p q : Point α) : (p + q).x = p.x + q.x := rfl

@[simp] theorem add_y (p q : Point α) : (p + q).y = p.y + q.y := rfl

@[simp] theorem sub_x (p q : Point α) : (p - q).x = p.x - q.x := rfl

@[simp] theorem sub_y (p q : Point α) : (p - q).y = p.y - q.y := rfl

@[simp] theorem mul_x (p q : Point α) : (p * q).x = p.x * q.x := rfl

@[simp] theorem mul_y (p q : Point α) : (p * q).y = p.y * q.y := rfl

@[simp] theorem scale_x (p : Point α) (k : α) : (p.scale k).x = p.x * k := rfl

@[simp] theorem scale_y (p : Point α) (k : α) : (p.scale k).y = p.y * k := rfl

@[simp] theorem least_x (p q : Point α) : (p.least q).x = Scalar.least p.x q.x := rfl

@[simp] theorem least_y (p q : Point α) : (p.least q).y = Scalar.least p.y q.y := rfl

@[simp] theorem greatest_x (p q : Point α) : (p.greatest q).x = Scalar.greatest p.x q.x := rfl

@[simp] theorem greatest_y (p q : Point α) : (p.greatest q).y = Scalar.greatest p.y q.y := rfl

end Point

end LineArt
