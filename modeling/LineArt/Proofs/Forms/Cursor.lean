import LineArt.Proofs.Forms.Token
import LineArt.Proofs.Json.Records
import LineArt.Proofs.Scalars

/-!
# Settings and cursors read back

Points, bounds, settings and cursors are faithful records of faithful fields.
-/

namespace LineArt

open Json

/-! ### Points and bounds -/

theorem point_faithful :
    Faithful (Point Float32) 2 (Point.all Float32.isFinite) (Point.map reread) where
  fits p := .array (List.forall_mem_cons.2 ⟨(float_faithful.fits p.x).mono (by decide),
    List.forall_mem_singleton.2 ((float_faithful.fits p.y).mono (by decide))⟩)
  read {d} hd p := by
    have hpair := readPair_written (float_faithful.mono (Nat.zero_le 1))
      (float_faithful.mono (Nat.zero_le 1)) hd p.x p.y
    show readPair d (Value.array [Form.write p.x, Form.write p.y]).node >>= _ = _
    rw [hpair]
    exact outcome_bind_ok _ _ rfl

def Bounds.content (b : Bounds Float32) : (f : Bounds.Field) → Bounds.record.Content f
  | .min => b.min
  | .max => b.max

def Bounds.presented :
    Bounds.record.Presents (Bounds Float32) 1 (Bounds.all Float32.isFinite)
      (Bounds.map reread) where
  content := Bounds.content
  fieldOk _ := Point.all Float32.isFinite
  fieldReread _ := Point.map reread
  short := false
  build := _
  name_injective := by
    intro e f
    cases e <;> cases f <;> simp [Bounds.record]
  nodup_fields := by decide
  field_faithful _ := point_faithful
  write_eq _ := rfl
  read_eq _ _ := rfl
  ok_eq b := by simp [Bounds.record, Bounds.all, Bounds.content]
  build_eq _ := rfl

theorem bounds_faithful :
    Faithful (Bounds Float32) 3 (Bounds.all Float32.isFinite) (Bounds.map reread) :=
  Bounds.presented.faithful

/-! ### Settings -/

theorem coord_faithful :
    Faithful (Coord Float32) 2 (Coord.all Float32.isFinite) (Coord.map reread) where
  fits c := by
    cases c with
    | fixed v => exact holding_fits ((float_faithful.fits v).mono (Nat.zero_le 1))
    | centered => exact .string 2 _
  read {d} hd c := by
    cases c with
    | fixed v =>
      exact readVariant_written Coord.fixed (float_faithful.mono (Nat.zero_le 1)) rfl hd v
    | centered => exact readVariant_plain rfl d

def Start.content (s : Start Float32) : (f : Start.Field) → Start.record.Content f
  | .x => s.x
  | .y => s.y

def Start.presented :
    Start.record.Presents (Start Float32) 1 (Start.all Float32.isFinite) (Start.map reread) where
  content := Start.content
  fieldOk _ := Coord.all Float32.isFinite
  fieldReread _ := Coord.map reread
  short := false
  build := _
  name_injective := by
    intro e f
    cases e <;> cases f <;> simp [Start.record]
  nodup_fields := by decide
  field_faithful _ := coord_faithful
  write_eq _ := rfl
  read_eq _ _ := rfl
  ok_eq s := by simp [Start.record, Start.all, Start.content]
  build_eq _ := rfl

theorem start_faithful :
    Faithful (Start Float32) 3 (Start.all Float32.isFinite) (Start.map reread) :=
  Start.presented.faithful

def Config.content (c : Config Float32) : (f : Config.Field) → Config.record.Content f
  | .step => c.step
  | .canvas => c.canvas
  | .strokeColor => c.strokeColor
  | .strokeWidth => c.strokeWidth

namespace Config.Field

def all : (f : Config.Field) → Config.record.Content f → Bool
  | step | canvas => Point.all Float32.isFinite
  | strokeColor => fun _ => true
  | strokeWidth => Float32.isFinite

def reread : (f : Config.Field) → Config.record.Content f → Config.record.Content f
  | step | canvas => Point.map Json.reread
  | strokeColor => id
  | strokeWidth => Json.reread

theorem faithful : (f : Config.Field) → Faithful (Config.record.Content f) 2 f.all f.reread
  | step | canvas => point_faithful
  | strokeColor => string_faithful.mono (Nat.zero_le 2)
  | strokeWidth => float_faithful.mono (Nat.zero_le 2)

end Config.Field

def Config.presented :
    Config.record.Presents (Config Float32) 1 (Config.all Float32.isFinite)
      (Config.map reread) where
  content := Config.content
  fieldOk := Config.Field.all
  fieldReread := Config.Field.reread
  short := true
  build := _
  name_injective := by
    intro e f
    cases e <;> cases f <;> simp [Config.record]
  nodup_fields := by decide
  field_faithful := Config.Field.faithful
  write_eq _ := rfl
  read_eq _ _ := rfl
  ok_eq c := by
    simp [Config.record, Config.all, Config.content, Config.Field.all, Bool.and_assoc]
  build_eq _ := rfl

theorem config_faithful :
    Faithful (Config Float32) 3 (Config.all Float32.isFinite) (Config.map reread) :=
  Config.presented.faithful

/-! ### Cursors -/

def Cursor.content (c : Cursor Float32) : (f : Cursor.Field) → Cursor.record.Content f
  | .position => c.position
  | .origin => c.origin
  | .multiplier => c.multiplier
  | .pen => c.pen
  | .anchor => c.anchor
  | .waypoints => c.waypoints
  | .bounds => c.bounds

theorem point_ne_null (p : Point Float32) : Form.write p ≠ .null := by
  intro h
  contradiction

theorem count_ne_null (n : UInt32) : Form.write n ≠ .null := by
  intro h
  contradiction

theorem count_faithful : Faithful (Option UInt32) 0 (fun _ => true) id := by
  have h := uint32_faithful.option count_ne_null
  have hall : (fun n : Option UInt32 => n.all fun _ => true) = fun _ => true := by
    funext n
    cases n <;> rfl
  rwa [hall, Option.map_id] at h

namespace Cursor.Field

def all : (f : Cursor.Field) → Cursor.record.Content f → Bool
  | position | origin => Point.all Float32.isFinite
  | multiplier => fun _ => true
  | pen => fun _ => true
  | anchor => fun p => p.all (Point.all Float32.isFinite)
  | waypoints => fun ws => ws.toList.all fun p => p.all (Point.all Float32.isFinite)
  | bounds => Bounds.all Float32.isFinite

def reread : (f : Cursor.Field) → Cursor.record.Content f → Cursor.record.Content f
  | position | origin => Point.map Json.reread
  | multiplier => id
  | pen => id
  | anchor => Option.map (Point.map Json.reread)
  | waypoints => Vector.map (Option.map (Point.map Json.reread))
  | bounds => Bounds.map Json.reread

theorem faithful : (f : Cursor.Field) → Faithful (Cursor.record.Content f) 3 f.all f.reread
  | position | origin => point_faithful.mono (by decide)
  | multiplier => count_faithful.mono (Nat.zero_le 3)
  | pen => pen_faithful.mono (Nat.zero_le 3)
  | anchor => (point_faithful.option point_ne_null).mono (by decide)
  | waypoints => (point_faithful.option point_ne_null).vector
  | bounds => bounds_faithful

end Cursor.Field

def Cursor.presented :
    Cursor.record.Presents (Cursor Float32) 2 (Cursor.all Float32.isFinite)
      (Cursor.map reread) where
  content := Cursor.content
  fieldOk := Cursor.Field.all
  fieldReread := Cursor.Field.reread
  short := false
  build := _
  name_injective := by
    intro e f
    cases e <;> cases f <;> simp [Cursor.record]
  nodup_fields := by decide
  field_faithful := Cursor.Field.faithful
  write_eq _ := rfl
  read_eq _ _ := rfl
  ok_eq c := by
    simp [Cursor.record, Cursor.all, Cursor.content, Cursor.Field.all, Bool.and_assoc]
  build_eq _ := rfl

theorem cursor_faithful :
    Faithful (Cursor Float32) 4 (Cursor.all Float32.isFinite) (Cursor.map reread) :=
  Cursor.presented.faithful

end LineArt
