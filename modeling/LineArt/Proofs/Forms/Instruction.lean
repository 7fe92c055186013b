import LineArt.Forms.Instruction
import LineArt.Proofs.Forms.Cursor

/-!
# Instructions and recordings read back

An instruction is taken as a whole before its fields are looked at.  Its kind is found
under the tag, which is no name of a field, and the fields are those of the kind.
-/

namespace LineArt

open Json

namespace Instruction

namespace Field

def all : (f : Field) → f.Content → Bool
  | color => fun _ => true
  | width | radius | startAngle | endAngle | thickness => Float32.isFinite
  | point | min | max | center => Point.all Float32.isFinite

def reread : (f : Field) → f.Content → f.Content
  | color => id
  | width | radius | startAngle | endAngle | thickness => Json.reread
  | point | min | max | center => Point.map Json.reread

theorem faithful (kind : Kind) :
    (f : Field) → Faithful (kind.record.Content f) 2 f.all f.reread
  | color => string_faithful.mono (Nat.zero_le 2)
  | width | radius | startAngle | endAngle | thickness => float_faithful.mono (Nat.zero_le 2)
  | point | min | max | center => point_faithful

theorem name_injective : Function.Injective Field.name := by
  intro e f
  cases e <;> cases f <;> simp [Field.name]

theorem name_ne_tag (f : Field) : f.name ≠ tag := by
  cases f <;> simp [Field.name, tag]

end Field

/-- The fields of an instruction with their contents, in order. -/
def entries : Instruction Float32 → List ((f : Field) × f.Content)
  | .setStrokeStyle color width => [⟨.color, color⟩, ⟨.width, width⟩]
  | .beginPath => []
  | .moveTo point => [⟨.point, point⟩]
  | .lineTo point => [⟨.point, point⟩]
  | .stroke => []
  | .fillRect min max color => [⟨.min, min⟩, ⟨.max, max⟩, ⟨.color, color⟩]
  | .arc center radius startAngle endAngle color thickness =>
    [⟨.center, center⟩, ⟨.radius, radius⟩, ⟨.startAngle, startAngle⟩, ⟨.endAngle, endAngle⟩,
      ⟨.color, color⟩, ⟨.thickness, thickness⟩]

def op (i : Instruction Float32) : Kind := i.members.1

/-- The fields as they are read back. -/
def gathered (i : Instruction Float32) : i.op.record.Gathered :=
  i.op.record.none.putAll (i.entries.map fun entry => ⟨entry.1, entry.1.reread entry.2⟩)

theorem members_eq (i : Instruction Float32) :
    i.members.2 = i.entries.map i.op.record.member := by
  cases i <;> rfl

theorem fst_entries (i : Instruction Float32) : i.entries.map Sigma.fst = i.op.record.fields := by
  cases i <;> rfl

theorem nodup_fields (kind : Kind) : kind.record.fields.Nodup := by
  cases kind <;> decide

theorem all_entries (i : Instruction Float32) :
    (i.entries.all fun entry => entry.1.all entry.2) = i.all Float32.isFinite := by
  cases i <;> simp [entries, Field.all, all, Bool.and_assoc]

theorem build_gathered (i : Instruction Float32) :
    i.op.build i.gathered = .ok (i.map reread) := by
  cases i <;> rfl

theorem readKind_name (kind : Kind) : readKind (.string (writtenName kind.name)) = .ok kind := by
  have hname : Function.Injective Kind.name := by
    intro k l
    cases k <;> cases l <;> simp [Kind.name]
  have hmem : kind ∈ Kind.all := by
    cases kind <;> simp [Kind.all]
  simp [readKind, Node.chars, find?_name hname hmem]

theorem takeMembers_written {depth : Nat} (kind : Kind) {ms : List (String × Value)}
    (hfits : ∀ m ∈ ms, m.2.Fits depth) (hname : ∀ m ∈ ms, m.1 ≠ tag) :
    takeMembers depth .closed (some kind) (Value.memberNodes ms)
      = .ok (kind, Value.memberNodes ms) := by
  induction ms with
  | nil => rfl
  | cons m ms ih =>
    obtain ⟨hm, hfits⟩ := List.forall_mem_cons.1 hfits
    obtain ⟨hne, hname⟩ := List.forall_mem_cons.1 hname
    have hne : ¬ m.1.toList = tag.toList := fun heq => hne (String.toList_inj.1 heq)
    have hcheck := Node.check_of_fits hm
    simp [Value.memberNodes, takeMembers, hne, hcheck, ih hfits hname]

theorem member_fits (i : Instruction Float32) : ∀ m ∈ i.members.2, m.2.Fits 2 := by
  rw [members_eq]
  exact List.forall_mem_map.2 fun entry _ => (Field.faithful i.op entry.1).fits entry.2

theorem member_ne_tag (i : Instruction Float32) : ∀ m ∈ i.members.2, m.1 ≠ tag := by
  rw [members_eq]
  exact List.forall_mem_map.2 fun entry _ => entry.1.name_ne_tag

/-- The fields of an instruction are gathered once its members were taken as a whole. -/
theorem readMembers_members (i : Instruction Float32) :
    i.op.record.readMembers depthLimit .closed i.op.record.none (Value.memberNodes i.members.2)
      = outcome (i.all Float32.isFinite) i.gathered := by
  have hmem : ∀ entry ∈ i.entries, entry.1 ∈ i.op.record.fields := by
    intro entry hentry
    rw [← fst_entries]
    exact List.mem_map_of_mem hentry
  have hnodup : (i.entries.map Sigma.fst).Nodup := by
    rw [fst_entries]
    exact nodup_fields i.op
  have hread := Record.readMembers_written Field.name_injective (Field.faithful i.op)
    (d := depthLimit) (by decide) i.entries i.op.record.none hmem hnodup (fun _ _ => rfl)
  rw [members_eq]
  exact hread.trans (congrArg (fun ok => outcome ok _) (all_entries i))

end Instruction

theorem instruction_faithful :
    Faithful (Instruction Float32) 3 (Instruction.all Float32.isFinite)
      (Instruction.map reread) where
  fits i := .object (List.forall_mem_cons.2 ⟨.string 2 _, i.member_fits⟩)
  read {d} hd i := by
    obtain ⟨d, rfl⟩ : ∃ k, d = k + 2 := ⟨d - 2, by omega⟩
    have hfits : ∀ m ∈ i.members.2, m.2.Fits (d + 1) :=
      fun m hm => (i.member_fits m hm).mono (by omega)
    have htake := Instruction.takeMembers_written i.op hfits i.member_ne_tag
    have hkind := Instruction.readKind_name i.op
    show Instruction.read (d + 2) (.object ((writtenName Instruction.tag,
      .string (writtenName i.op.name)) :: Value.memberNodes i.members.2) .closed) = _
    simp only [Instruction.read, Node.enter_succ, ok_bind, Instruction.takeMembers,
      Value.chars_writtenName, if_true, Option.isSome_none, Bool.false_eq_true, if_false, hkind,
      htake]
    rw [Instruction.readMembers_members, outcome_bind_ok _ _ i.build_gathered]
    -- The fields give no fault but a mismatch, which interpreting them keeps.
    cases i.all Float32.isFinite <;> rfl

def Recording.presented :
    Recording.record.Presents (Recording Float32) 3 (Recording.all Float32.isFinite)
      (Recording.map reread) where
  content r _ := r.instructions
  fieldOk _ is := is.all (Instruction.all Float32.isFinite)
  fieldReread _ := List.map (Instruction.map reread)
  short := false
  build := _
  name_injective _ _ _ := rfl
  nodup_fields := by decide
  field_faithful _ := instruction_faithful.list
  write_eq _ := rfl
  read_eq _ _ := rfl
  ok_eq r := by simp [Recording.record, Recording.all]
  build_eq _ := rfl

theorem recording_faithful :
    Faithful (Recording Float32) 5 (Recording.all Float32.isFinite) (Recording.map reread) :=
  Recording.presented.faithful

end LineArt
