import LineArt.Proofs.Forms.Instruction

/-!
# Reading back what was written

Every type with a JSON form reads its own compact text: the floats become what their own
texts are read as, everything else is kept, and a value with a float that is not finite
is a mismatch.
-/

namespace LineArt

open Json

/-- Reading the text of a value gives the value with each float as its own text is read; if
a float is not finite it gives a mismatch. -/
theorem written_values_are_read_back :
    (∀ x : Float32, decode (encode x) = outcome x.isFinite (reread x)) ∧
    (∀ c : Config Float32, decode (encode c) = outcome (c.all Float32.isFinite) (c.map reread)) ∧
    (∀ s : Start Float32, decode (encode s) = outcome (s.all Float32.isFinite) (s.map reread)) ∧
    (∀ c : Coord Float32, decode (encode c) = outcome (c.all Float32.isFinite) (c.map reread)) ∧
    (∀ m : Mode, decode (encode m) = .ok m) ∧
    (∀ s : Symmetry, decode (encode s) = .ok s) ∧
    (∀ t : Token, decode (encode t) = .ok t) ∧
    (∀ b : Bounds Float32, decode (encode b) = outcome (b.all Float32.isFinite) (b.map reread)) ∧
    (∀ c : Cursor Float32, decode (encode c) = outcome (c.all Float32.isFinite) (c.map reread)) ∧
    (∀ i : Instruction Float32,
      decode (encode i) = outcome (i.all Float32.isFinite) (i.map reread)) ∧
    (∀ r : Recording Float32,
      decode (encode r) = outcome (r.all Float32.isFinite) (r.map reread)) :=
  ⟨float_faithful.decode_encode (by decide), config_faithful.decode_encode (by decide),
    start_faithful.decode_encode (by decide), coord_faithful.decode_encode (by decide),
    mode_faithful.decode_encode (by decide), symmetry_faithful.decode_encode (by decide),
    token_faithful.decode_encode (by decide), bounds_faithful.decode_encode (by decide),
    cursor_faithful.decode_encode (by decide), instruction_faithful.decode_encode (by decide),
    recording_faithful.decode_encode (by decide)⟩

end LineArt
