import LineArt.Proofs.Json.Records

/-!
# Members in any order

An object may hold the fields of a record in any order and among members that the record does
not know: what is gathered is the same.  A field that stands twice is never gathered, whatever
stands between.
-/

namespace LineArt.Json

open Value (itemNodes memberNodes)

/-! ### Getting past a value -/

namespace Node

theorem skipItems_of_forall {nodes : List Node} (h : ∀ n ∈ nodes, skip n = .ok ()) :
    skipItems nodes = .ok () := by
  induction nodes with
  | nil => rfl
  | cons n nodes ih =>
    obtain ⟨hn, hrest⟩ := List.forall_mem_cons.1 h
    rw [skipItems, hn, ok_bind]
    exact ih hrest

theorem skipMembers_of_forall {members : List (String × Value)}
    (h : ∀ m ∈ members, skip m.2.node = .ok ()) : skipMembers (memberNodes members) = .ok () := by
  induction members with
  | nil => rfl
  | cons m members ih =>
    obtain ⟨hm, hrest⟩ := List.forall_mem_cons.1 h
    rw [memberNodes, skipMembers, writtenName, Quoted.skip, ok_bind, hm, ok_bind]
    exact ih hrest

theorem skip_of_proper {v : Value} (h : v.Proper) : skip v.node = .ok () := by
  induction h with
  | null => rfl
  | bool b => rfl
  | number hproper => rfl
  | string s => rfl
  | array hitems ih =>
    have hall := skipItems_of_forall (List.forall_mem_map.2 ih)
    simp [Value.node, skip, Value.itemNodes_eq_map, hall, Ending.finish]
  | object hmembers ih =>
    have hall := skipMembers_of_forall ih
    simp [Value.node, skip, hall, Ending.finish]

end Node

namespace Record

variable {F : Type} [DecidableEq F] {R : Record F}

/-- A field with its content. -/
abbrev Entry (R : Record F) : Type := (f : F) × R.Content f

/-! ### What is gathered -/

namespace Gathered

variable {g : R.Gathered} {f : F} {a : R.Content f} {entries entries' : List R.Entry}

theorem put_self : g.put f a f = some a := by
  simp [put]

theorem putAll_of_not_mem (h : f ∉ entries.map Sigma.fst) : g.putAll entries f = g f := by
  induction entries generalizing g with
  | nil => rfl
  | cons entry entries ih =>
    obtain ⟨hne, hrest⟩ := not_or.1 (mt List.mem_cons.2 h)
    exact (ih hrest).trans (put_of_ne g hne entry.2)

theorem putAll_of_mem (hnodup : (entries.map Sigma.fst).Nodup) (h : ⟨f, a⟩ ∈ entries) :
    g.putAll entries f = some a := by
  induction entries generalizing g with
  | nil => contradiction
  | cons entry entries ih =>
    obtain ⟨hnotin, hnodup⟩ := List.nodup_cons.1 hnodup
    rcases List.mem_cons.1 h with rfl | hrest
    · exact (putAll_of_not_mem hnotin).trans put_self
    · exact ih hnodup hrest

theorem isSome_putAll (hnodup : (entries.map Sigma.fst).Nodup) (h : f ∈ entries.map Sigma.fst) :
    (g.putAll entries f).isSome := by
  obtain ⟨⟨e, a⟩, hentry, rfl⟩ := List.mem_map.1 h
  rw [putAll_of_mem hnodup hentry]
  rfl

/-- The order in which different fields are put makes no difference. -/
theorem putAll_perm (hnodup : (entries.map Sigma.fst).Nodup) (h : entries'.Perm entries) :
    g.putAll entries' = g.putAll entries := by
  have hnames := h.map Sigma.fst
  funext f
  by_cases hf : f ∈ entries.map Sigma.fst
  · obtain ⟨⟨e, a⟩, hentry, rfl⟩ := List.mem_map.1 hf
    rw [putAll_of_mem hnodup hentry, putAll_of_mem (hnames.nodup_iff.2 hnodup) (h.mem_iff.2 hentry)]
  · rw [putAll_of_not_mem hf, putAll_of_not_mem (mt hnames.mem_iff.1 hf)]

end Gathered

/-! ### What an object holds -/

/-- The members are these fields with their contents, in this order, among others that the
record does not know. -/
inductive Holds (R : Record F) (depth : Nat) : List (Quoted × Node) → List R.Entry → Prop where
  | nil : Holds R depth [] []
  | field {f : F} {a : R.Content f} {name : Quoted} {value : Node}
    {members : List (Quoted × Node)} {entries : List R.Entry} (known : f ∈ R.fields)
    (called : name.chars = .ok (R.name f).toList) (read : (R.form f).read depth value = .ok a)
    (rest : Holds R depth members entries) :
    Holds R depth ((name, value) :: members) (⟨f, a⟩ :: entries)
  | other {chars : List Char} {name : Quoted} {value : Node} {members : List (Quoted × Node)}
    {entries : List R.Entry} (called : name.chars = .ok chars)
    (unknown : ∀ f ∈ R.fields, (R.name f).toList ≠ chars) (skip : value.skip = .ok ())
    (rest : Holds R depth members entries) : Holds R depth ((name, value) :: members) entries

section Reading

variable {depth : Nat} {ending : Ending} {members rest : List (Quoted × Node)}
  {entries : List R.Entry} {g : R.Gathered} {f : F}

omit [DecidableEq F] in
theorem field?_eq_none {chars : List Char} (h : ∀ f ∈ R.fields, (R.name f).toList ≠ chars) :
    R.field? chars = Option.none :=
  List.find?_eq_none.2 fun f hf => by simpa using h f hf

omit [DecidableEq F] in
theorem Holds.of_append {members' : List (Quoted × Node)}
    (h : R.Holds depth (members ++ members') entries) :
    ∃ before after, entries = before ++ after ∧ R.Holds depth members before ∧
      R.Holds depth members' after := by
  induction members generalizing entries with
  | nil => exact ⟨[], entries, rfl, .nil, h⟩
  | cons member members ih =>
    cases h with
    | field known called read rest =>
      obtain ⟨before, after, rfl, hbefore, hafter⟩ := ih rest
      exact ⟨_ :: before, after, rfl, .field known called read hbefore, hafter⟩
    | other called unknown skip rest =>
      obtain ⟨before, after, rfl, hbefore, hafter⟩ := ih rest
      exact ⟨before, after, rfl, .other called unknown skip hbefore, hafter⟩

/-! ### Written members in another order -/

/-- A field with its content, or a member that the record does not know. -/
def slot (R : Record F) : R.Entry ⊕ (String × Value) → String × Value := Sum.elim R.member id

section Written

variable (reread : (f : F) → R.Content f → R.Content f)

omit [DecidableEq F] in
theorem holds_slots {slots : List (R.Entry ⊕ (String × Value))}
    (hfields : ∀ e, .inl e ∈ slots → e.1 ∈ R.fields ∧
      (R.form e.1).read depth ((R.form e.1).write e.2).node = .ok (reread e.1 e.2))
    (hothers : ∀ m, .inr m ∈ slots → (∀ f ∈ R.fields, R.name f ≠ m.1) ∧ m.2.node.skip = .ok ()) :
    R.Holds depth (memberNodes (slots.map R.slot))
      ((slots.filterMap Sum.getLeft?).map fun e => ⟨e.1, reread e.1 e.2⟩) := by
  induction slots with
  | nil => exact .nil
  | cons s slots ih =>
    have hrest := ih (fun e he => hfields e (List.mem_cons_of_mem _ he))
      fun m hm => hothers m (List.mem_cons_of_mem _ hm)
    cases s with
    | inl e =>
      obtain ⟨hknown, hread⟩ := hfields e List.mem_cons_self
      exact .field hknown (Value.chars_writtenName _) hread hrest
    | inr m =>
      obtain ⟨hunknown, hskip⟩ := hothers m List.mem_cons_self
      exact .other (Value.chars_writtenName _)
        (fun f hf heq => hunknown f hf (String.toList_inj.1 heq)) hskip hrest

omit [DecidableEq F] in
/-- Written fields are held in any order and among any others. -/
theorem exists_holds_of_perm {written others : List (String × Value)}
    (hperm : written.Perm (entries.map R.member ++ others))
    (hfields : ∀ e ∈ entries, e.1 ∈ R.fields ∧
      (R.form e.1).read depth ((R.form e.1).write e.2).node = .ok (reread e.1 e.2))
    (hothers : ∀ m ∈ others, (∀ f ∈ R.fields, R.name f ≠ m.1) ∧ m.2.node.skip = .ok ()) :
    ∃ held : List R.Entry, held.Perm (entries.map fun e => ⟨e.1, reread e.1 e.2⟩) ∧
      R.Holds depth (memberNodes written) held := by
  have hslots : entries.map R.member ++ others
      = (entries.map Sum.inl ++ others.map Sum.inr).map R.slot := by
    simp [slot, Function.comp_def]
  rw [hslots] at hperm
  obtain ⟨slots, rfl, hslots⟩ := (congrFun₂ (List.eq_map_comp_perm R.slot) written _).mpr hperm
  -- The order of the slots is that of the members; without the others it is one of the entries.
  refine ⟨_, ?_, holds_slots reread ?_ ?_⟩
  · have hleft : (entries.map Sum.inl ++ others.map Sum.inr).filterMap Sum.getLeft? = entries := by
      simp [List.filterMap_map, Function.comp_def]
    have h := (hslots.filterMap Sum.getLeft?).map
      fun e : R.Entry => (⟨e.1, reread e.1 e.2⟩ : R.Entry)
    rwa [hleft] at h
  · intro e he
    have hmem := hslots.mem_iff.1 he
    exact hfields e (by simpa using hmem)
  · intro m hm
    have hmem := hslots.mem_iff.1 hm
    exact hothers m (by simpa using hmem)

end Written

variable (hname : Function.Injective R.name)

include hname

/-- New fields are gathered as they come, each with its content. -/
theorem Holds.readMembers_append (h : R.Holds depth members entries)
    (hnodup : (entries.map Sigma.fst).Nodup) (hnew : ∀ entry ∈ entries, g entry.1 = Option.none) :
    R.readMembers depth ending g (members ++ rest)
      = R.readMembers depth ending (g.putAll entries) rest := by
  induction h generalizing g with
  | nil => rfl
  | @field f a name value members entries known called read _ ih =>
    obtain ⟨hnotin, hnodup⟩ := List.nodup_cons.1 hnodup
    obtain ⟨hfresh, hnew⟩ := List.forall_mem_cons.1 hnew
    rw [List.cons_append, readMembers, called, ok_bind, field?_name hname known]
    simp only [hfresh, Option.isSome_none, Bool.false_eq_true, if_false, read, ok_bind]
    refine ih hnodup fun entry hentry => ?_
    have hne : entry.1 ≠ f := ne_of_mem_of_not_mem (List.mem_map_of_mem hentry) hnotin
    rw [Gathered.put_of_ne g hne]
    exact hnew entry hentry
  | other called unknown skip _ ih =>
    rw [List.cons_append, readMembers, called, ok_bind, field?_eq_none unknown]
    simp only [skip, ok_bind]
    exact ih hnodup hnew

/-- The first field that was gathered before is a mismatch. -/
theorem Holds.readMembers_of_isSome (h : R.Holds depth members entries)
    (hf : f ∈ entries.map Sigma.fst) (hg : (g f).isSome) :
    R.readMembers depth ending g (members ++ rest) = .error .mismatch := by
  induction h generalizing g with
  | nil => contradiction
  | @field e a name value members entries known called read _ ih =>
    rw [List.cons_append, readMembers, called, ok_bind, field?_name hname known]
    dsimp only
    split
    · rfl
    · -- This field has not stood before, so it is not `f`, which comes later.
      rename_i he
      have hne : f ≠ e := fun heq => he (heq ▸ hg)
      have hrest := (List.mem_cons.1 hf).resolve_left hne
      rw [read, ok_bind]
      refine ih hrest ?_
      rw [Gathered.put_of_ne g hne]
      exact hg
  | other called unknown skip _ ih =>
    rw [List.cons_append, readMembers, called, ok_bind, field?_eq_none unknown]
    simp only [skip, ok_bind]
    exact ih hf hg

theorem Holds.readMembers (h : R.Holds depth members entries)
    (hnodup : (entries.map Sigma.fst).Nodup) :
    R.readMembers depth .closed R.none members = .ok (R.none.putAll entries) := by
  have hread : R.readMembers depth .closed R.none (members ++ [])
      = R.readMembers depth .closed (R.none.putAll entries) [] :=
    h.readMembers_append hname hnodup fun _ _ => rfl
  rwa [List.append_nil] at hread

omit [DecidableEq F] in
theorem Holds.mem_of_called (h : R.Holds depth members entries) (hknown : f ∈ R.fields)
    {member : Quoted × Node} (hmember : member ∈ members)
    (hcalled : member.1.chars = .ok (R.name f).toList) : f ∈ entries.map Sigma.fst := by
  induction h with
  | nil => contradiction
  | field _ called _ _ ih =>
    rcases List.mem_cons.1 hmember with rfl | hrest
    · have hsame := Except.ok.inj (hcalled.symm.trans called)
      rw [hname (String.toList_inj.1 hsame)]
      exact List.mem_cons_self
    · exact List.mem_cons_of_mem _ (ih hrest)
  | other called unknown _ _ ih =>
    rcases List.mem_cons.1 hmember with rfl | hrest
    · exact absurd (Except.ok.inj (hcalled.symm.trans called)) (unknown f hknown)
    · exact ih hrest

/-- One more member under the name of a field keeps all of them from being gathered.  The fault
is a mismatch, unless this member is the first of the name and the field is not read from it. -/
theorem Holds.exists_fault_of_repeated (ending : Ending) {before after : List (Quoted × Node)}
    (h : R.Holds depth (before ++ after) entries) (hnodup : (entries.map Sigma.fst).Nodup)
    (hf : f ∈ entries.map Sigma.fst) (hknown : f ∈ R.fields) {name : Quoted}
    (hcalled : name.chars = .ok (R.name f).toList) (value : Node) :
    ∃ fault, R.readMembers depth ending R.none (before ++ (name, value) :: after) = .error fault ∧
      (fault = .mismatch ∨ (∀ member ∈ before, member.1.chars ≠ .ok (R.name f).toList) ∧
        (R.form f).read depth value = .error fault) := by
  obtain ⟨first, last, rfl, hfirst, hlast⟩ := h.of_append
  rw [List.map_append] at hnodup hf
  have hnodup := (List.nodup_append.1 hnodup).1
  rw [hfirst.readMembers_append hname hnodup fun _ _ => rfl, Record.readMembers, hcalled, ok_bind,
    field?_name hname hknown]
  dsimp only
  split
  · exact ⟨.mismatch, rfl, .inl rfl⟩
  · -- The field has not stood before, so it will after its value is read.
    rename_i hfresh
    have hlater : f ∈ last.map Sigma.fst := (List.mem_append.1 hf).resolve_left fun hin =>
      hfresh (Gathered.isSome_putAll hnodup hin)
    have hfirst' : ∀ member ∈ before, member.1.chars ≠ .ok (R.name f).toList :=
      fun member hmember hcalled =>
        hfresh (Gathered.isSome_putAll hnodup (hfirst.mem_of_called hname hknown hmember hcalled))
    cases hread : (R.form f).read depth value with
    | error fault => exact ⟨fault, rfl, .inr ⟨hfirst', rfl⟩⟩
    | ok a =>
      have hput : ((R.none.putAll first).put f a f).isSome := by
        rw [Gathered.put_self]
        rfl
      have hrepeated : R.readMembers depth ending ((R.none.putAll first).put f a) (after ++ [])
          = .error .mismatch := hlast.readMembers_of_isSome hname hlater hput
      rw [List.append_nil] at hrepeated
      exact ⟨.mismatch, hrepeated, .inl rfl⟩

end Reading

theorem Presents.read_depthLimit {α : Type} [Form α] {depth : Nat} {ok : α → Bool}
    {reread : α → α} (P : R.Presents α depth ok reread) (members : List (Quoted × Node)) :
    Form.read (α := α) depthLimit (.object members .closed)
      = R.readMembers (depthLimit - 1) .closed R.none members >>= P.build := by
  rw [P.read_eq]
  rfl

end Record

end LineArt.Json
