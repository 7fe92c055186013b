import LineArt.Proofs.Json.Faithful

/-!
# Records read back

The members that a record writes are gathered again, each field once and whatever the
order.
-/

namespace LineArt.Json.Record

open Value (memberNodes)

instance {F : Type} (R : Record F) (f : F) : Form (R.Content f) := R.form f

theorem field?_name {F : Type} {R : Record F} (hname : Function.Injective R.name) {f : F}
    (hf : f ∈ R.fields) : R.field? (R.name f).toList = some f := find?_name hname hf

section Gathering

variable {F : Type} [DecidableEq F] {R : Record F}

theorem Gathered.put_of_ne (g : R.Gathered) {e f : F} (h : e ≠ f) (a : R.Content f) :
    g.put f a e = g e := dif_neg h

/-- Fields with their contents, put one after the other. -/
def Gathered.putAll (g : R.Gathered) (entries : List ((f : F) × R.Content f)) : R.Gathered :=
  entries.foldl (fun g entry => g.put entry.1 entry.2) g

def member (R : Record F) (entry : (f : F) × R.Content f) : String × Value :=
  (R.name entry.1, (R.form entry.1).write entry.2)

end Gathering

section Reading

variable {F : Type} [DecidableEq F] {R : Record F} {depth : Nat}
  {ok : (f : F) → R.Content f → Bool} {reread : (f : F) → R.Content f → R.Content f}

/-- The members of some fields are gathered, beside those that were there. -/
theorem readMembers_written (hname : Function.Injective R.name)
    (hfields : ∀ f, Faithful (R.Content f) depth (ok f) (reread f))
    {d : Nat} (hd : depth ≤ d) (entries : List ((f : F) × R.Content f)) (g : R.Gathered)
    (hmem : ∀ entry ∈ entries, entry.1 ∈ R.fields) (hnodup : (entries.map Sigma.fst).Nodup)
    (hnew : ∀ entry ∈ entries, g entry.1 = Option.none) :
    R.readMembers d .closed g (memberNodes (entries.map R.member))
      = outcome (entries.all fun entry => ok entry.1 entry.2)
          (g.putAll (entries.map fun entry => ⟨entry.1, reread entry.1 entry.2⟩)) := by
  induction entries generalizing g with
  | nil => rfl
  | cons entry entries ih =>
    obtain ⟨f, a⟩ := entry
    obtain ⟨hf, hmem⟩ := List.forall_mem_cons.1 hmem
    obtain ⟨hfresh, hnew⟩ := List.forall_mem_cons.1 hnew
    obtain ⟨hnotin, hnodup⟩ := List.nodup_cons.1 hnodup
    have hread := (hfields f).read hd a
    simp only [List.map_cons, member, memberNodes, readMembers, Value.chars_writtenName, ok_bind,
      field?_name hname hf, hfresh, Option.isSome_none, Bool.false_eq_true, if_false, hread]
    refine outcome_bind _ _ _ (ih (g.put f (reread f a)) hmem hnodup ?_)
    intro entry hentry
    have hne : entry.1 ≠ f := by
      intro heq
      have hin : entry.1 ∈ entries.map Sigma.fst := List.mem_map_of_mem hentry
      rw [heq] at hin
      exact hnotin hin
    rw [Gathered.put_of_ne g hne]
    exact hnew entry hentry

/-- How a type is written as a record of faithful fields and built from what is gathered. -/
structure Presents (R : Record F) (α : Type) [Form α] (depth : Nat) (ok : α → Bool)
    (reread : α → α) where
  content : α → (f : F) → R.Content f
  fieldOk : (f : F) → R.Content f → Bool
  fieldReread : (f : F) → R.Content f → R.Content f
  short : Bool
  build : R.Gathered → Except Fault α
  name_injective : Function.Injective R.name
  nodup_fields : R.fields.Nodup
  field_faithful : ∀ f, Faithful (R.Content f) (depth + 1) (fieldOk f) (fieldReread f)
  write_eq : ∀ a : α, Form.write a = R.write (content a)
  read_eq : ∀ d node, Form.read (α := α) d node = R.read d short node >>= build
  ok_eq : ∀ a, (R.fields.all fun f => fieldOk f (content a f)) = ok a
  build_eq : ∀ a, build (R.none.putAll (R.fields.map fun f => ⟨f, fieldReread f (content a f)⟩))
    = .ok (reread a)

namespace Presents

variable {α : Type} [Form α] {okAll : α → Bool} {rereadAll : α → α}
  (P : R.Presents α depth okAll rereadAll)

/-- The fields of a value, in order. -/
def entries (a : α) : List ((f : F) × R.Content f) := R.fields.map fun f => ⟨f, P.content a f⟩

theorem fst_entries (a : α) : (P.entries a).map Sigma.fst = R.fields := by
  simp [entries, Function.comp_def]

theorem write_eq_members (a : α) : Form.write a = .object ((P.entries a).map R.member) := by
  rw [P.write_eq, entries, List.map_map]
  rfl

include P

/-- A type is faithful that is written as a record of faithful fields and built from them. -/
theorem faithful : Faithful α (depth + 2) okAll rereadAll where
  fits a := by
    rw [P.write_eq_members]
    exact .object (List.forall_mem_map.2 fun entry _ => (P.field_faithful entry.1).fits entry.2)
  read {d} hd a := by
    obtain ⟨d, rfl⟩ : ∃ k, d = k + 2 := ⟨d - 2, by omega⟩
    have hread := readMembers_written P.name_injective P.field_faithful (d := d + 1) (by omega)
      (P.entries a) R.none (by simp [entries]) (by rw [P.fst_entries]; exact P.nodup_fields)
      fun _ _ => rfl
    rw [P.write_eq_members, P.read_eq]
    show (Node.enter (d + 2) >>= fun d => R.readMembers d .closed R.none _) >>= P.build = _
    rw [Node.enter_succ, ok_bind, hread, entries, List.map_map, List.all_map]
    exact (congrArg (fun ok => outcome ok _ >>= _) (P.ok_eq a)).trans
      (outcome_bind_ok _ _ (P.build_eq a))

end Presents

end Reading

end LineArt.Json.Record
