import LineArt.Forms.Cursor
import LineArt.Forms.Settings
import LineArt.Forms.Token
import LineArt.Proofs.Json.Faithful

/-!
# Names and tokens read back

Types whose values are written by their names alone, and tokens, which may hold one of
them.  They hold no floats, so reading gives back what was written.
-/

namespace LineArt

open Json

/-! ### Names -/

theorem named_faithful {α : Type} [F : Form α] {name : α → String} {all : List α}
    (hwrite : ∀ a, F.write a = .string (name a))
    (hread : ∀ d node, F.read d node = readVariant (plainVariants name all) d node)
    (hname : Function.Injective name) (hall : ∀ a, a ∈ all) :
    Faithful α 0 (fun _ => true) id where
  fits a := by
    rw [hwrite]
    exact .string 0 (name a)
  read {d} _ a := by
    rw [hwrite, hread]
    exact readVariant_plain (find_plainVariants hname (hall a)) d

theorem mode_faithful : Faithful Mode 0 (fun _ => true) id :=
  named_faithful (fun _ => rfl) (fun _ _ => rfl)
    (fun m n => by cases m <;> cases n <;> simp [Mode.name])
    (fun m => by cases m <;> simp)

theorem pen_faithful : Faithful Pen 0 (fun _ => true) id :=
  named_faithful (fun _ => rfl) (fun _ _ => rfl)
    (fun p q => by cases p <;> cases q <;> simp [Pen.name])
    (fun p => by cases p <;> simp)

theorem direction_faithful : Faithful Direction 0 (fun _ => true) id :=
  named_faithful (fun _ => rfl) (fun _ _ => rfl)
    (fun d e => by cases d <;> cases e <;> simp [Direction.name])
    (fun d => by cases d <;> simp [Direction.all])

theorem action_faithful : Faithful WaypointAction 0 (fun _ => true) id :=
  named_faithful (fun _ => rfl) (fun _ _ => rfl)
    (fun a b => by cases a <;> cases b <;> simp [WaypointAction.name])
    (fun a => by cases a <;> simp)

theorem half_faithful : Faithful Half 0 (fun _ => true) id :=
  named_faithful (fun _ => rfl) (fun _ _ => rfl)
    (fun s t => by cases s <;> cases t <;> simp [Half.name])
    (fun s => by cases s <;> simp)

theorem symmetry_faithful : Faithful Symmetry 0 (fun _ => true) id :=
  named_faithful (fun _ => rfl) (fun _ _ => rfl)
    (fun s t => by cases s <;> cases t <;> simp [Symmetry.name])
    (fun s => by cases s <;> simp [Symmetry.all])

/-! ### Tokens -/

theorem token_faithful : Faithful Token 3 (fun _ => true) id where
  fits t := by
    cases t with
    | digit value => exact holding_fits ((uint8_faithful.fits value).mono (Nat.zero_le 2))
    | axis d => exact holding_fits ((direction_faithful.fits d).mono (Nat.zero_le 2))
    | waypoint name action =>
      exact holding_fits (.array (List.forall_mem_cons.2
        ⟨(char_faithful.fits name).mono (Nat.zero_le 1),
          List.forall_mem_singleton.2 ((action_faithful.fits action).mono (Nat.zero_le 1))⟩))
    | blank half => exact holding_fits ((half_faithful.fits half).mono (Nat.zero_le 2))
    | capture half => exact holding_fits ((half_faithful.fits half).mono (Nat.zero_le 2))
    | reset => exact .string 3 _
    | space => exact .string 3 _
    | invalid char => exact holding_fits ((char_faithful.fits char).mono (Nat.zero_le 2))
  read {d} hd t := by
    cases t with
    | digit value =>
      show readVariant Token.variants d (writeHolding "Digit" (Form.write value)).node = _
      exact readVariant_written Token.digit (uint8_faithful.mono (Nat.zero_le 2)) rfl hd value
    | axis e =>
      show readVariant Token.variants d (writeHolding "Axis" (Form.write e)).node = _
      exact readVariant_written Token.axis (direction_faithful.mono (Nat.zero_le 2)) rfl hd e
    | waypoint name action =>
      obtain ⟨d, rfl⟩ : ∃ k, d = k + 2 := ⟨d - 2, by omega⟩
      have hpair := readPair_written (char_faithful.mono (Nat.zero_le 1))
        (action_faithful.mono (Nat.zero_le 1)) (d := d + 1) (by omega) name action
      show readVariant Token.variants (d + 2)
        (writeHolding "Waypoint" (.array [Form.write name, Form.write action])).node = _
      refine (readVariant_holding rfl d _).trans ?_
      show readPair (d + 1) _ >>= _ = _
      rw [hpair]
      rfl
    | blank half =>
      show readVariant Token.variants d (writeHolding "Blank" (Form.write half)).node = _
      exact readVariant_written Token.blank (half_faithful.mono (Nat.zero_le 2)) rfl hd half
    | capture half =>
      show readVariant Token.variants d (writeHolding "Capture" (Form.write half)).node = _
      exact readVariant_written Token.capture (half_faithful.mono (Nat.zero_le 2)) rfl hd half
    | reset => exact readVariant_plain rfl d
    | space => exact readVariant_plain rfl d
    | invalid char =>
      show readVariant Token.variants d (writeHolding "Invalid" (Form.write char)).node = _
      exact readVariant_written Token.invalid (char_faithful.mono (Nat.zero_le 2)) rfl hd char

end LineArt
