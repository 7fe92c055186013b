import LineArt.Proofs.Forms.Instruction
import LineArt.Proofs.Json.Reread

/-!
# Finite values survive their text

A float is written in the digits of a 32-bit float and read as a 64-bit one that is rounded
again.  Both roundings together give back the float, bit for bit, so a value whose floats
are all finite is read back as it was, from its compact text and from its pretty one.
-/

namespace LineArt

open Json

/-- From either of their texts the values that are `ok` are read back as they were, and
nothing is read from the texts of the others. -/
structure Survive (α : Type) [Form α] (ok : α → Bool) : Prop where
  compact : ∀ a : α, decode (encode a) = outcome (ok a) a
  pretty : ∀ a : α, decode (Form.write a).prettyText = outcome (ok a) a

theorem Json.Faithful.survive {α : Type} [Form α] {depth : ℕ} {ok : α → Bool} {reread : α → α}
    (h : Faithful α depth ok reread) (hle : depth ≤ depthLimit)
    (hkeep : ∀ a, ok a = true → reread a = a) : Survive α ok where
  compact a := (h.decode_encode hle a).trans (outcome_kept hkeep a)
  pretty a := (h.decode_prettyText hle a).trans (outcome_kept hkeep a)

/-- Values with finite floats only are read back from their texts, every float the same to the
last bit and a zero with its sign; of a value with another float none is read at all. -/
theorem finite_values_survive :
    Survive Float32 Float32.isFinite ∧
    Survive (Config Float32) (Config.all Float32.isFinite) ∧
    Survive (Start Float32) (Start.all Float32.isFinite) ∧
    Survive (Coord Float32) (Coord.all Float32.isFinite) ∧
    Survive (Bounds Float32) (Bounds.all Float32.isFinite) ∧
    Survive (Cursor Float32) (Cursor.all Float32.isFinite) ∧
    Survive (Instruction Float32) (Instruction.all Float32.isFinite) ∧
    Survive (Recording Float32) (Recording.all Float32.isFinite) := by
  have hkeep : ∀ x : Float32, x.isFinite = true → reread x = x := fun _ => reread_of_isFinite
  refine ⟨?_, ?_, ?_, ?_, ?_, ?_, ?_, ?_⟩
  · exact float_faithful.survive (by decide) hkeep
  · exact config_faithful.survive (by decide) fun _ => Config.map_eq_self hkeep
  · exact start_faithful.survive (by decide) fun _ => Start.map_eq_self hkeep
  · exact coord_faithful.survive (by decide) fun _ => Coord.map_eq_self hkeep
  · exact bounds_faithful.survive (by decide) fun _ => Bounds.map_eq_self hkeep
  · exact cursor_faithful.survive (by decide) fun _ => Cursor.map_eq_self hkeep
  · exact instruction_faithful.survive (by decide) fun _ => Instruction.map_eq_self hkeep
  · exact recording_faithful.survive (by decide) fun _ => Recording.map_eq_self hkeep

/-- The float written `7.038531e-26`, which lies beside a midpoint, survives by itself and next
to a negative zero; next to an infinity nothing is read. -/
theorem float_beside_midpoint_survives :
    decode (encode (Float32.ofBits 0x15ae43fd)) = .ok (Float32.ofBits 0x15ae43fd) ∧
      decode (encode (Instruction.lineTo ⟨Float32.ofBits 0x15ae43fd, Float32.ofBits 0x80000000⟩))
        = .ok (Instruction.lineTo ⟨Float32.ofBits 0x15ae43fd, Float32.ofBits 0x80000000⟩) ∧
      decode (encode (Instruction.lineTo ⟨Float32.ofBits 0x15ae43fd, Float32.ofBits 0x7f800000⟩))
        = (.error .mismatch : Except Fault (Instruction Float32)) := by
  obtain ⟨hfloat, -, -, -, -, -, hinstruction, -⟩ := finite_values_survive
  exact ⟨hfloat.compact _, hinstruction.compact _, hinstruction.compact _⟩

end LineArt
