import LineArt.Config
import LineArt.Cursor
import LineArt.Instruction

/-!
# The scalars of a value

Settings, cursors and recordings are laid out over a type of scalars.  A predicate can be
asked of all scalars of a value, and a function applied to each of them while everything
else stays as it is.  A function that keeps the scalars that pass keeps a value whose
scalars all pass.
-/

namespace LineArt

variable {α β : Type}

namespace Point

def all (ok : α → Bool) (p : Point α) : Bool := ok p.x && ok p.y

def map (f : α → β) (p : Point α) : Point β := ⟨f p.x, f p.y⟩

end Point

namespace Bounds

def all (ok : α → Bool) (b : Bounds α) : Bool := b.min.all ok && b.max.all ok

def map (f : α → β) (b : Bounds α) : Bounds β := ⟨b.min.map f, b.max.map f⟩

end Bounds

namespace Coord

def all (ok : α → Bool) : Coord α → Bool
  | fixed v => ok v
  | centered => true

def map (f : α → β) : Coord α → Coord β
  | fixed v => fixed (f v)
  | centered => centered

end Coord

namespace Start

def all (ok : α → Bool) (s : Start α) : Bool := s.x.all ok && s.y.all ok

def map (f : α → β) (s : Start α) : Start β := ⟨s.x.map f, s.y.map f⟩

end Start

namespace Config

def all (ok : α → Bool) (c : Config α) : Bool :=
  c.step.all ok && c.canvas.all ok && ok c.strokeWidth

def map (f : α → β) (c : Config α) : Config β :=
  ⟨c.step.map f, c.canvas.map f, c.strokeColor, f c.strokeWidth⟩

end Config

namespace Cursor

def all (ok : α → Bool) (c : Cursor α) : Bool :=
  c.position.all ok && c.origin.all ok && c.anchor.all (Point.all ok)
    && c.waypoints.toList.all (fun w => w.all (Point.all ok)) && c.bounds.all ok

def map (f : α → β) (c : Cursor α) : Cursor β where
  position := c.position.map f
  origin := c.origin.map f
  multiplier := c.multiplier
  pen := c.pen
  anchor := c.anchor.map (Point.map f)
  waypoints := c.waypoints.map (Option.map (Point.map f))
  bounds := c.bounds.map f

end Cursor

namespace Instruction

def all (ok : α → Bool) : Instruction α → Bool
  | setStrokeStyle _ width => ok width
  | beginPath => true
  | moveTo p => p.all ok
  | lineTo p => p.all ok
  | stroke => true
  | fillRect min max _ => min.all ok && max.all ok
  | arc center radius startAngle endAngle _ thickness =>
    center.all ok && ok radius && ok startAngle && ok endAngle && ok thickness

def map (f : α → β) : Instruction α → Instruction β
  | setStrokeStyle color width => setStrokeStyle color (f width)
  | beginPath => beginPath
  | moveTo p => moveTo (p.map f)
  | lineTo p => lineTo (p.map f)
  | stroke => stroke
  | fillRect min max color => fillRect (min.map f) (max.map f) color
  | arc center radius startAngle endAngle color thickness =>
    arc (center.map f) (f radius) (f startAngle) (f endAngle) color (f thickness)

end Instruction

namespace Recording

def all (ok : α → Bool) (r : Recording α) : Bool := r.instructions.all (Instruction.all ok)

def map (f : α → β) (r : Recording α) : Recording β := ⟨r.instructions.map (Instruction.map f)⟩

end Recording

/-! ### Functions that keep the scalars -/

section Kept

variable {f : α → α} {ok : α → Bool} (h : ∀ x, ok x = true → f x = x)

include h

theorem map_option_eq_self {a : Option α} (ha : a.all ok = true) : a.map f = a := by
  cases a with
  | none => rfl
  | some x => exact congrArg some (h x ha)

theorem map_list_eq_self {as : List α} (has : as.all ok = true) : as.map f = as := by
  refine (List.map_congr_left fun x hx => h x (List.all_eq_true.1 has x hx)).trans ?_
  exact List.map_id' as

theorem map_vector_eq_self {n : Nat} {as : Vector α n} (has : as.toList.all ok = true) :
    as.map f = as := by
  apply Vector.toList_inj.1
  rw [Vector.toList_map]
  exact map_list_eq_self h has

theorem Point.map_eq_self {p : Point α} (hp : p.all ok = true) : p.map f = p := by
  obtain ⟨hx, hy⟩ := Bool.and_eq_true_iff.1 hp
  show (⟨f p.x, f p.y⟩ : Point α) = p
  rw [h p.x hx, h p.y hy]

theorem Bounds.map_eq_self {b : Bounds α} (hb : b.all ok = true) : b.map f = b := by
  obtain ⟨hmin, hmax⟩ := Bool.and_eq_true_iff.1 hb
  show (⟨b.min.map f, b.max.map f⟩ : Bounds α) = b
  rw [Point.map_eq_self h hmin, Point.map_eq_self h hmax]

theorem Coord.map_eq_self {c : Coord α} (hc : c.all ok = true) : c.map f = c := by
  cases c with
  | fixed v => exact congrArg Coord.fixed (h v hc)
  | centered => rfl

theorem Start.map_eq_self {s : Start α} (hs : s.all ok = true) : s.map f = s := by
  obtain ⟨hx, hy⟩ := Bool.and_eq_true_iff.1 hs
  show (⟨s.x.map f, s.y.map f⟩ : Start α) = s
  rw [Coord.map_eq_self h hx, Coord.map_eq_self h hy]

theorem Config.map_eq_self {c : Config α} (hc : c.all ok = true) : c.map f = c := by
  simp only [Config.all, Bool.and_eq_true] at hc
  obtain ⟨⟨hstep, hcanvas⟩, hwidth⟩ := hc
  unfold Config.map
  rw [Point.map_eq_self h hstep, Point.map_eq_self h hcanvas, h c.strokeWidth hwidth]

theorem Cursor.map_eq_self {c : Cursor α} (hc : c.all ok = true) : c.map f = c := by
  simp only [Cursor.all, Bool.and_eq_true] at hc
  obtain ⟨⟨⟨⟨hposition, horigin⟩, hanchor⟩, hwaypoints⟩, hbounds⟩ := hc
  have hpoint : ∀ p : Point α, p.all ok = true → p.map f = p := fun _ => Point.map_eq_self h
  unfold Cursor.map
  rw [Point.map_eq_self h hposition, Point.map_eq_self h horigin, map_option_eq_self hpoint hanchor,
    map_vector_eq_self (fun _ => map_option_eq_self hpoint) hwaypoints,
    Bounds.map_eq_self h hbounds]

theorem Instruction.map_eq_self {i : Instruction α} (hi : i.all ok = true) : i.map f = i := by
  cases i with
  | setStrokeStyle color width => exact congrArg (setStrokeStyle color) (h width hi)
  | beginPath => rfl
  | moveTo p => exact congrArg moveTo (Point.map_eq_self h hi)
  | lineTo p => exact congrArg lineTo (Point.map_eq_self h hi)
  | stroke => rfl
  | fillRect min max color =>
    obtain ⟨hmin, hmax⟩ := Bool.and_eq_true_iff.1 hi
    rw [Instruction.map, Point.map_eq_self h hmin, Point.map_eq_self h hmax]
  | arc center radius startAngle endAngle color thickness =>
    simp only [Instruction.all, Bool.and_eq_true] at hi
    obtain ⟨⟨⟨⟨hcenter, hradius⟩, hstart⟩, hend⟩, hthickness⟩ := hi
    rw [Instruction.map, Point.map_eq_self h hcenter, h radius hradius, h startAngle hstart,
      h endAngle hend, h thickness hthickness]

theorem Recording.map_eq_self {r : Recording α} (hr : r.all ok = true) : r.map f = r := by
  unfold Recording.map
  rw [map_list_eq_self (fun _ => Instruction.map_eq_self h) hr]

end Kept

end LineArt
