import LineArt.Proofs.FiniteValues
import LineArt.Proofs.Json.Gathering
import LineArt.Proofs.Json.Range

/-!
# Fields by name

The order in which an object names the fields of a value makes no difference to what is read,
nor do members under other names.  A record gathers its fields as they come; an instruction is
taken as a whole first, and its tag may stand anywhere.  A name that stands twice is refused.
What a record does not know it only gets past; an instruction has to take it, and so its
numbers have to be readable.
-/

namespace LineArt

open Json
open Value (memberNodes)

/-! ### Objects with more members -/

namespace Json

/-- Values nested no deeper than that, with numbers that are read. -/
inductive Value.Within : ℕ → Value → Prop where
  | null (levels : ℕ) : Within levels .null
  | bool (levels : ℕ) (b : Bool) : Within levels (.bool b)
  | number (levels : ℕ) {n : Numeral} (proper : n.Proper) (read : ∃ x, numberOf n = .ok x) :
    Within levels (.number n)
  | string (levels : ℕ) (s : String) : Within levels (.string s)
  | array {levels : ℕ} {items : List Value} (h : ∀ v ∈ items, Within levels v) :
    Within (levels + 1) (.array items)
  | object {levels : ℕ} {members : List (String × Value)} (h : ∀ m ∈ members, Within levels m.2) :
    Within (levels + 1) (.object members)

theorem Value.Within.fits {levels : ℕ} {v : Value} (h : v.Within levels) :
    v.Fits (levels + 1) := by
  induction h with
  | null levels => exact .null _
  | bool levels b => exact .bool _ b
  | number levels hproper hread => exact .number _ hproper hread
  | string levels s => exact .string _ s
  | array _ ih => exact .array ih
  | object _ ih => exact .object ih

/-- A text of a value, compact or laid out over lines. -/
def Value.texts (v : Value) : List String := [v.compactText, v.prettyText]

theorem decode_of_mem_texts {α : Type} [Form α] {v : Value} (h : v.Proper) {text : String}
    (htext : text ∈ v.texts) :
    decode text = Form.read (α := α) depthLimit v.node := by
  simp only [Value.texts, List.mem_cons, List.not_mem_nil, or_false] at htext
  rcases htext with rfl | rfl
  · exact decode_eq_read (read_compactText h)
  · exact decode_eq_read (read_prettyText h)

theorem forall_mem_insert {allowed : Value → Prop} {before after : List (String × Value)}
    (h : ∀ m ∈ before ++ after, allowed m.2) (name : String) {value : Value}
    (hvalue : allowed value) : ∀ m ∈ before ++ (name, value) :: after, allowed m.2 := by
  obtain ⟨hbefore, hafter⟩ := List.forall_mem_append.1 h
  exact List.forall_mem_append.2 ⟨hbefore, List.forall_mem_cons.2 ⟨hvalue, hafter⟩⟩

theorem memberNodes_append (ms ks : List (String × Value)) :
    memberNodes (ms ++ ks) = memberNodes ms ++ memberNodes ks := by
  simp only [Value.memberNodes_eq_map, List.map_append]

theorem exists_mem_memberNodes {ms : List (String × Value)} {name : String}
    (h : name ∈ ms.map Prod.fst) :
    ∃ member ∈ memberNodes ms, member.1.chars = .ok name.toList := by
  obtain ⟨m, hm, rfl⟩ := List.mem_map.1 h
  rw [Value.memberNodes_eq_map]
  exact ⟨_, List.mem_map_of_mem hm, Value.chars_writtenName m.1⟩

/-- The members are those of an object in some order, among others under names that it has
not, with values that are allowed. -/
def Arranges (allowed : Value → Prop) (own members : List (String × Value)) : Prop :=
  ∃ others, members.Perm (own ++ others) ∧
    ∀ m ∈ others, m.1 ∉ own.map Prod.fst ∧ allowed m.2

end Json

/-- A type is read from the names of the members: their order makes no difference, nor do others
between them, and a name that stands twice is refused.  The fault is then a mismatch, unless the
repeated member is the first of its name and reading its value has another. -/
structure ReadByName (α : Type) [Form α] (ok : α → Bool) (allowed : Value → Prop)
    (refuses : String → Value → Fault → Prop) : Prop where
  isObject : ∀ a : α, ∃ own, Form.write a = .object own
  arranged : ∀ (a : α) (own members : List (String × Value)), ok a = true →
    Form.write a = .object own → Arranges allowed own members →
    ∀ text ∈ (Value.object members).texts,
      decode text = .ok a ∧ (decode text : Except Fault α) = decode (encode a)
  repeated : ∀ (a : α) (own before after : List (String × Value)) (name : String) (value : Value),
    ok a = true → Form.write a = .object own → Arranges allowed own (before ++ after) →
    name ∈ own.map Prod.fst → allowed value →
    ∀ text ∈ (Value.object (before ++ (name, value) :: after)).texts,
      ∃ fault, (decode text : Except Fault α) = .error fault ∧
        (fault = .mismatch ∨ name ∉ before.map Prod.fst ∧ refuses name value fault)

/-! ### Records -/

namespace Json.Record

variable {F : Type} {R : Record F}

/-- Reading a field of that name from the value has this fault. -/
def Refuses (R : Record F) (name : String) (value : Value) (fault : Fault) : Prop :=
  ∃ f ∈ R.fields, R.name f = name ∧ (R.form f).read (depthLimit - 1) value.node = .error fault

namespace Presents

variable [DecidableEq F] {α : Type} [Form α] {depth : ℕ} {ok : α → Bool} {reread : α → α}
  (P : R.Presents α depth ok reread)

def rereadEntries (a : α) : List R.Entry :=
  (P.entries a).map fun e => ⟨e.1, P.fieldReread e.1 e.2⟩

theorem fst_rereadEntries (a : α) : (P.rereadEntries a).map Sigma.fst = R.fields := by
  simp [rereadEntries, entries, Function.comp_def]

theorem build_of_perm {a : α} {held : List R.Entry} (h : held.Perm (P.rereadEntries a)) :
    P.build (R.none.putAll held) = .ok (reread a) := by
  have hnodup : ((P.rereadEntries a).map Sigma.fst).Nodup := by
    rw [P.fst_rereadEntries]
    exact P.nodup_fields
  rw [Gathered.putAll_perm hnodup h, rereadEntries, entries, List.map_map]
  exact P.build_eq a

section Arranged

variable {a : α} {own members : List (String × Value)} (hwrite : Form.write a = .object own)

include P hwrite

theorem own_eq : own = (P.entries a).map R.member :=
  (Value.object.inj (hwrite.symm.trans (P.write_eq_members a))).symm ▸ rfl

theorem fst_own : own.map Prod.fst = R.fields.map R.name := by
  rw [P.own_eq hwrite]
  simp [entries, member, Function.comp_def]

variable (harranged : Arranges Value.Proper own members)

include harranged

theorem proper_arranged : ∀ m ∈ members, m.2.Proper := by
  obtain ⟨others, hperm, hothers⟩ := harranged
  rw [P.own_eq hwrite] at hperm
  intro m hm
  rcases List.mem_append.1 (hperm.mem_iff.1 hm) with hown | hother
  · obtain ⟨e, -, rfl⟩ := List.mem_map.1 hown
    exact ((P.field_faithful e.1).fits e.2).proper
  · exact (hothers m hother).2

theorem exists_holds (hdepth : depth + 2 ≤ depthLimit) (hok : ok a = true) :
    ∃ held : List R.Entry, held.Perm (P.rereadEntries a) ∧
      R.Holds (depthLimit - 1) (memberNodes members) held := by
  obtain ⟨others, hperm, hothers⟩ := harranged
  rw [P.own_eq hwrite] at hperm
  have hall := (P.ok_eq a).trans hok
  refine exists_holds_of_perm P.fieldReread hperm ?_ ?_
  · intro e he
    obtain ⟨f, hf, rfl⟩ := List.mem_map.1 he
    have hread := (P.field_faithful f).read (d := depthLimit - 1) (by omega) (P.content a f)
    rw [List.all_eq_true.1 hall f hf] at hread
    exact ⟨hf, hread⟩
  · intro m hm
    obtain ⟨hname, hproper⟩ := hothers m hm
    rw [P.fst_own hwrite] at hname
    exact ⟨fun f hf heq => hname (List.mem_map.2 ⟨f, hf, heq⟩), Node.skip_of_proper hproper⟩

end Arranged

include P in
theorem readByName (hdepth : depth + 2 ≤ depthLimit) (hkeep : ∀ a, ok a = true → reread a = a) :
    ReadByName α ok Value.Proper R.Refuses where
  isObject a := ⟨_, P.write_eq_members a⟩
  arranged a own members hok hwrite harranged text htext := by
    obtain ⟨held, hperm, hholds⟩ := P.exists_holds hwrite harranged hdepth hok
    have hnodup : (held.map Sigma.fst).Nodup := by
      rw [(hperm.map Sigma.fst).nodup_iff, P.fst_rereadEntries]
      exact P.nodup_fields
    have hdecode : decode text = .ok a := by
      rw [decode_of_mem_texts (.object (P.proper_arranged hwrite harranged)) htext,
        Value.node, P.read_depthLimit, hholds.readMembers P.name_injective hnodup, ok_bind,
        P.build_of_perm hperm, hkeep a hok]
    have hencode := (P.faithful.decode_encode hdepth a).trans (outcome_kept hkeep a)
    rw [hok] at hencode
    exact ⟨hdecode, hdecode.trans hencode.symm⟩
  repeated a own before after name value hok hwrite harranged hname hvalue text htext := by
    obtain ⟨held, hperm, hholds⟩ := P.exists_holds hwrite harranged hdepth hok
    have hnames := (hperm.map Sigma.fst).trans (.of_eq (P.fst_rereadEntries a))
    rw [P.fst_own hwrite] at hname
    obtain ⟨f, hf, rfl⟩ := List.mem_map.1 hname
    have hproper := forall_mem_insert (P.proper_arranged hwrite harranged) (R.name f) hvalue
    rw [memberNodes_append] at hholds
    obtain ⟨fault, hfault, hcause⟩ := hholds.exists_fault_of_repeated P.name_injective .closed
      (hnames.nodup_iff.2 P.nodup_fields) (hnames.mem_iff.2 hf) hf
      (Value.chars_writtenName (R.name f)) value.node
    refine ⟨fault, ?_, hcause.imp_right fun hfirst => ⟨fun hbefore => ?_, f, hf, rfl, hfirst.2⟩⟩
    · rw [decode_of_mem_texts (.object hproper) htext, Value.node, P.read_depthLimit,
        memberNodes_append, memberNodes, hfault]
      rfl
    · obtain ⟨member, hmember, hcalled⟩ := exists_mem_memberNodes hbefore
      exact hfirst.1 member hmember hcalled

end Presents

end Json.Record

/-! ### Instructions -/

namespace Instruction

section Taking

variable {depth : ℕ} {kind : Kind} {ms : List (String × Value)}

theorem readKind_of_fits {v : Value} (h : v.Fits depth) :
    (∃ k, readKind v.node = .ok k) ∨ readKind v.node = .error .mismatch := by
  cases h with
  | null => exact .inr rfl
  | bool _ b => exact .inr rfl
  | number _ proper read =>
    obtain ⟨x, hx⟩ := read
    right
    simp [readKind, Node.chars, Node.notText, Value.node, hx]
  | string _ s =>
    simp only [readKind, Node.chars, Value.node, Value.chars_writtenName, ok_bind]
    split
    · exact .inl ⟨_, rfl⟩
    · exact .inr rfl
  | array items_fit => exact .inr rfl
  | object members_fit => exact .inr rfl

/-- The tag is taken out of the members, wherever it stands. -/
theorem takeMembers_of_tagged (hfits : ∀ m ∈ ms, m.2.Fits depth)
    (htag : ms.filter (·.1 = tag) = [(tag, .string kind.name)]) :
    takeMembers depth .closed none (memberNodes ms)
      = .ok (kind, memberNodes (ms.filter (·.1 ≠ tag))) := by
  induction ms with
  | nil => contradiction
  | cons m ms ih =>
    obtain ⟨hm, hothers⟩ := List.forall_mem_cons.1 hfits
    by_cases hname : m.1 = tag
    · rw [List.filter_cons_of_pos (by simpa using hname)] at htag
      obtain ⟨rfl, hrest⟩ := List.cons.inj htag
      have hfree : ∀ m ∈ ms, m.1 ≠ tag := by simpa using List.filter_eq_nil_iff.1 hrest
      have hkept : ms.filter (·.1 ≠ tag) = ms := List.filter_eq_self.2 (by simpa using hfree)
      rw [List.filter_cons_of_neg (by simp), hkept]
      simp [memberNodes, takeMembers, Value.node, readKind_name,
        takeMembers_written kind hothers hfree]
    · have hne : ¬ m.1.toList = tag.toList := fun heq => hname (String.toList_inj.1 heq)
      rw [List.filter_cons_of_neg (by simpa using hname)] at htag
      rw [List.filter_cons_of_pos (by simpa using hname)]
      simp [memberNodes, takeMembers, hne, Node.check_of_fits hm, ih hothers htag]

theorem takeMembers_of_mem (hfits : ∀ m ∈ ms, m.2.Fits depth) (htag : tag ∈ ms.map Prod.fst) :
    takeMembers depth .closed (some kind) (memberNodes ms) = .error .mismatch := by
  induction ms with
  | nil => contradiction
  | cons m ms ih =>
    obtain ⟨hm, hfits⟩ := List.forall_mem_cons.1 hfits
    by_cases hname : m.1 = tag
    · simp [memberNodes, takeMembers, hname]
    · have hrest := (List.mem_cons.1 htag).resolve_left (Ne.symm hname)
      simp [memberNodes, takeMembers, Node.check_of_fits hm, ih hfits hrest]

theorem takeMembers_twice {before after : List (String × Value)} {value : Value}
    (hfits : ∀ m ∈ before ++ (tag, value) :: after, m.2.Fits depth)
    (htag : tag ∈ (before ++ after).map Prod.fst) :
    takeMembers depth .closed none (memberNodes (before ++ (tag, value) :: after))
      = .error .mismatch := by
  induction before with
  | nil =>
    obtain ⟨hvalue, hafter⟩ := List.forall_mem_cons.1 hfits
    rcases readKind_of_fits hvalue with ⟨k, hk⟩ | hk
    · simp [memberNodes, takeMembers, hk, takeMembers_of_mem hafter htag]
    · simp [memberNodes, takeMembers, hk]
  | cons m before ih =>
    have hm : m.2.Fits depth := hfits m List.mem_cons_self
    have hrest : ∀ m ∈ before ++ (tag, value) :: after, m.2.Fits depth :=
      fun m hm => hfits m (List.mem_cons_of_mem _ hm)
    by_cases hname : m.1 = tag
    · have hlater : tag ∈ (before ++ (tag, value) :: after).map Prod.fst := by simp
      rcases readKind_of_fits hm with ⟨k, hk⟩ | hk
      · simp [memberNodes, takeMembers, hname, hk, takeMembers_of_mem hrest hlater]
      · simp [memberNodes, takeMembers, hname, hk]
    · have hne : ¬ m.1.toList = tag.toList := fun heq => hname (String.toList_inj.1 heq)
      have htag := (List.mem_cons.1 htag).resolve_left (Ne.symm hname)
      simp [memberNodes, takeMembers, hne, Node.check_of_fits hm, ih hrest htag]

end Taking

section Arranged

variable {i : Instruction Float32} {own members : List (String × Value)}
  (hwrite : Form.write i = .object own) (harranged : Arranges (Value.Within 100) own members)

include hwrite

theorem own_eq : own = (tag, .string i.op.name) :: i.entries.map i.op.record.member := by
  rw [← i.members_eq]
  exact (Value.object.inj hwrite).symm

include harranged

theorem fits_arranged : ∀ m ∈ members, m.2.Fits (depthLimit - 1) := by
  obtain ⟨others, hperm, hothers⟩ := harranged
  rw [own_eq hwrite, ← i.members_eq] at hperm
  intro m hm
  rcases List.mem_append.1 (hperm.mem_iff.1 hm) with hown | hother
  · rcases List.mem_cons.1 hown with rfl | hfield
    · exact .string _ _
    · exact (i.member_fits m hfield).mono (by decide)
  · exact (hothers m hother).2.fits.mono (by decide)

/-- The tag stands once, and beside it the fields in some order among others. -/
theorem exists_perm_fields :
    members.filter (·.1 = tag) = [(tag, .string i.op.name)] ∧
      ∃ others, (members.filter (·.1 ≠ tag)).Perm (i.entries.map i.op.record.member ++ others) ∧
        ∀ m ∈ others, (∀ f ∈ i.op.record.fields, i.op.record.name f ≠ m.1) ∧ m.2.Within 100 := by
  obtain ⟨others, hperm, hothers⟩ := harranged
  rw [own_eq hwrite, ← i.members_eq] at hperm hothers
  have hfree : ∀ m ∈ i.members.2 ++ others, m.1 ≠ tag := by
    intro m hm heq
    rcases List.mem_append.1 hm with hfield | hother
    · exact i.member_ne_tag m hfield heq
    · exact (hothers m hother).1 (by simp [heq])
  have htag : (i.members.2 ++ others).filter (·.1 = tag) = [] :=
    List.filter_eq_nil_iff.2 (by simpa using hfree)
  have hkept : (i.members.2 ++ others).filter (·.1 ≠ tag) = i.members.2 ++ others :=
    List.filter_eq_self.2 (by simpa using hfree)
  refine ⟨?_, others, ?_, fun m hm => ⟨fun f hf heq => ?_, (hothers m hm).2⟩⟩
  · have h := hperm.filter (·.1 = tag)
    rw [List.cons_append, List.filter_cons_of_pos (by simp), htag] at h
    exact List.perm_singleton.1 h
  · have h := hperm.filter (·.1 ≠ tag)
    rw [List.cons_append, List.filter_cons_of_neg (by simp), hkept, i.members_eq] at h
    exact h
  · refine (hothers m hm).1 (List.mem_map.2 ?_)
    rw [← i.fst_entries] at hf
    obtain ⟨e, he, rfl⟩ := List.mem_map.1 hf
    exact ⟨_, List.mem_cons_of_mem _ (i.members_eq ▸ List.mem_map_of_mem he), heq⟩

theorem exists_holds (hok : i.all Float32.isFinite = true) :
    ∃ held : List i.op.record.Entry,
      held.Perm (i.entries.map fun e => ⟨e.1, e.1.reread e.2⟩) ∧
      i.op.record.Holds depthLimit (memberNodes (members.filter (·.1 ≠ tag))) held := by
  obtain ⟨-, others, hperm, hothers⟩ := exists_perm_fields hwrite harranged
  refine Record.exists_holds_of_perm Field.reread hperm ?_ ?_
  · intro e he
    have hknown : e.1 ∈ i.op.record.fields := i.fst_entries ▸ List.mem_map_of_mem he
    have hall := (i.all_entries).trans hok
    have hread := (Field.faithful i.op e.1).read (d := depthLimit) (by decide) e.2
    rw [List.all_eq_true.1 hall e he] at hread
    exact ⟨hknown, hread⟩
  · intro m hm
    obtain ⟨hname, hwithin⟩ := hothers m hm
    exact ⟨hname, Node.skip_of_proper hwithin.fits.proper⟩

end Arranged

theorem read_depthLimit (ms : List (String × Value)) :
    Form.read (α := Instruction Float32) depthLimit (Value.object ms).node
      = takeMembers (depthLimit - 1) .closed none (memberNodes ms) >>= fun taken =>
          interpreted (taken.1.record.readMembers depthLimit .closed taken.1.record.none taken.2
            >>= taken.1.build) := rfl

theorem fst_reread_entries (i : Instruction Float32) :
    (i.entries.map fun e => (⟨e.1, e.1.reread e.2⟩ : i.op.record.Entry)).map Sigma.fst
      = i.op.record.fields := by
  rw [← i.fst_entries, List.map_map]
  rfl

theorem build_of_perm (i : Instruction Float32) {held : List i.op.record.Entry}
    (h : held.Perm (i.entries.map fun e => ⟨e.1, e.1.reread e.2⟩)) :
    i.op.build (i.op.record.none.putAll held) = .ok (i.map reread) := by
  have hnodup := nodup_fields i.op
  rw [← i.fst_reread_entries] at hnodup
  rw [Record.Gathered.putAll_perm hnodup h]
  exact i.build_gathered

theorem readByName :
    ReadByName (Instruction Float32) (all Float32.isFinite) (Value.Within 100)
      fun _ _ _ => False where
  isObject i := ⟨_, rfl⟩
  arranged i own members hok hwrite harranged text htext := by
    have hfits := fits_arranged hwrite harranged
    obtain ⟨htag, -⟩ := exists_perm_fields hwrite harranged
    obtain ⟨held, hperm, hholds⟩ := exists_holds hwrite harranged hok
    have hnodup : (held.map Sigma.fst).Nodup := by
      rw [(hperm.map Sigma.fst).nodup_iff, i.fst_reread_entries]
      exact nodup_fields i.op
    have hkeep : i.map reread = i := map_eq_self (fun _ => reread_of_isFinite) hok
    have hdecode : decode text = .ok i := by
      rw [decode_of_mem_texts (Value.Fits.object hfits).proper htext, read_depthLimit,
        takeMembers_of_tagged hfits htag, ok_bind, hholds.readMembers Field.name_injective hnodup,
        ok_bind, i.build_of_perm hperm, hkeep]
      rfl
    have hencode := instruction_faithful.decode_encode (by decide) i
    rw [hok, hkeep] at hencode
    exact ⟨hdecode, hdecode.trans hencode.symm⟩
  repeated i own before after name value hok hwrite harranged hname hvalue text htext := by
    have hfits := forall_mem_insert (fits_arranged hwrite harranged) name
      (hvalue.fits.mono (by decide : 101 ≤ depthLimit - 1))
    refine ⟨.mismatch, ?_, .inl rfl⟩
    rw [decode_of_mem_texts (Value.Fits.object hfits).proper htext, read_depthLimit]
    obtain ⟨htag, -⟩ := exists_perm_fields hwrite harranged
    -- A second tag is met where the tag is taken out, a second field where the rest is read.
    by_cases hname' : name = tag
    · subst hname'
      have hmem : tag ∈ (before ++ after).map Prod.fst := by
        have h : (tag, Value.string i.op.name) ∈ (before ++ after).filter (·.1 = tag) := by
          rw [htag]
          exact List.mem_singleton_self _
        exact List.mem_map_of_mem (List.mem_of_mem_filter h)
      rw [takeMembers_twice hfits hmem]
      rfl
    · rw [own_eq hwrite] at hname
      obtain ⟨e, he, rfl⟩ : ∃ e ∈ i.entries, e.1.name = name := by
        simpa [hname', Record.member, Kind.record] using hname
      have hfield : e.1 ∈ i.op.record.fields := i.fst_entries ▸ List.mem_map_of_mem he
      obtain ⟨held, hperm, hholds⟩ := exists_holds hwrite harranged hok
      have hnames := (hperm.map Sigma.fst).trans (.of_eq i.fst_reread_entries)
      have htagged : (before ++ (e.1.name, value) :: after).filter (·.1 = tag)
          = [(tag, .string i.op.name)] := by
        rw [← htag]
        simp [List.filter_append, hname']
      have hkept : (before ++ (e.1.name, value) :: after).filter (·.1 ≠ tag)
          = before.filter (·.1 ≠ tag) ++ (e.1.name, value) :: after.filter (·.1 ≠ tag) := by
        simp [List.filter_append, hname']
      rw [List.filter_append, memberNodes_append] at hholds
      obtain ⟨fault, hfault, -⟩ := hholds.exists_fault_of_repeated Field.name_injective .closed
        (hnames.nodup_iff.2 (nodup_fields i.op)) (hnames.mem_iff.2 hfield)
        hfield (Value.chars_writtenName e.1.name) value.node
      rw [takeMembers_of_tagged hfits htagged, ok_bind, hkept, memberNodes_append, memberNodes,
        hfault]
      rfl

end Instruction

/-! ### All types -/

/-- Every type that is an object in JSON is read by the names of its members, with whatever
values beside the fields of a record.  Beside those of an instruction the numbers may be any that
are read, and those of a safe magnitude are, however they are written; repeating a field of an
instruction, or its tag, is a mismatch whatever the value. -/
theorem fields_are_read_by_name :
    (∀ n : Numeral, n.scaled.value ≤ greatestSafe → ∃ x, numberOf n = .ok x) ∧
    ReadByName (Instruction Float32) (Instruction.all Float32.isFinite) (Value.Within 100)
      (fun _ _ _ => False) ∧
    ReadByName (Recording Float32) (Recording.all Float32.isFinite) Value.Proper
      Recording.record.Refuses ∧
    ReadByName (Config Float32) (Config.all Float32.isFinite) Value.Proper Config.record.Refuses ∧
    ReadByName (Start Float32) (Start.all Float32.isFinite) Value.Proper Start.record.Refuses ∧
    ReadByName (Bounds Float32) (Bounds.all Float32.isFinite) Value.Proper Bounds.record.Refuses ∧
    ReadByName (Cursor Float32) (Cursor.all Float32.isFinite) Value.Proper
      Cursor.record.Refuses := by
  have hkeep : ∀ x : Float32, x.isFinite = true → reread x = x := fun _ => reread_of_isFinite
  refine ⟨fun n => exists_numberOf_of_le, Instruction.readByName, ?_, ?_, ?_, ?_, ?_⟩
  · exact Recording.presented.readByName (by decide) fun _ => Recording.map_eq_self hkeep
  · exact Config.presented.readByName (by decide) fun _ => Config.map_eq_self hkeep
  · exact Start.presented.readByName (by decide) fun _ => Start.map_eq_self hkeep
  · exact Bounds.presented.readByName (by decide) fun _ => Bounds.map_eq_self hkeep
  · exact Cursor.presented.readByName (by decide) fun _ => Cursor.map_eq_self hkeep

/-- A numeral with a power of ten. -/
def numeralOf (word power : String) : Numeral :=
  let read (text : String) : List Digit := text.toList.filterMap Digit.ofChar?
  ⟨false, read word, [], some (false, read power)⟩

theorem value_of_scaled {n : Numeral} {word power : ℕ} (h : n.scaled = ⟨word, power⟩) :
    n.scaled.value = ((word * 10 ^ power : ℕ) : ℚ) := by
  rw [h, Decimal.Scaled.value, zpow_natCast, Nat.cast_mul, Nat.cast_pow]
  rfl

/-- The members of a rectangle and a note with a tag of its own, which is none of its members. -/
def noted : Fin 5 → String × Value
  | 0 => (Instruction.tag, .string "fill_rect")
  | 1 => ("min", Form.write (⟨1, 2⟩ : Point Float32))
  | 2 => ("max", Form.write (⟨3, 4⟩ : Point Float32))
  | 3 => ("color", .string "#fff")
  | 4 => ("note", .array [.object [("op", .null)], .number (numeralOf "1" "308")])

/-- A rectangle is read with its tag behind the note, and not with its color twice. -/
theorem noted_rectangle_is_read :
    decode (Value.object ([3, 4, 2, 0, 1].map noted)).prettyText
        = .ok (Instruction.fillRect (⟨1, 2⟩ : Point Float32) ⟨3, 4⟩ "#fff") ∧
      (decode (Value.object
        ([3, 4, 2].map noted ++ ("color", .null) :: [0, 1].map noted)).compactText
        : Except Fault (Instruction Float32)) = .error .mismatch := by
  obtain ⟨hnumber, hread, -⟩ := fields_are_read_by_name
  have hfinite : (Instruction.fillRect (⟨1, 2⟩ : Point Float32) ⟨3, 4⟩ "#fff").all
      Float32.isFinite = true := by
    decide +kernel
  have hproper : (numeralOf "1" "308").Proper := by
    refine ⟨Decimal.isWhole_singleton _, fun sign ds h => ?_⟩
    obtain ⟨-, rfl⟩ := Prod.mk.inj (Option.some.inj h)
    decide
  have hmagnitude : (numeralOf "1" "308").scaled.value ≤ greatestSafe := by
    have hscaled : (numeralOf "1" "308").scaled = ⟨1, (308 : ℕ)⟩ := by decide +kernel
    rw [value_of_scaled hscaled]
    exact Binary64.natCast_le_sub (by decide +kernel)
  have hperm : ([3, 4, 2, 0, 1].map noted).Perm ([0, 1, 2, 3, 4].map noted) :=
    List.Perm.map noted (by decide)
  have harranged : Arranges (Value.Within 100) ([0, 1, 2, 3].map noted)
      ([3, 4, 2, 0, 1].map noted) := by
    refine ⟨[noted 4], hperm, List.forall_mem_singleton.2 ⟨by decide, ?_⟩⟩
    refine .array (List.forall_mem_cons.2 ⟨?_, List.forall_mem_singleton.2 ?_⟩)
    · exact .object (List.forall_mem_singleton.2 (.null _))
    · exact .number _ hproper (hnumber _ hmagnitude)
  refine ⟨(hread.arranged _ _ _ hfinite rfl harranged _ (by simp [Value.texts])).1, ?_⟩
  obtain ⟨fault, hfault, hcause⟩ := hread.repeated _ _ ([3, 4, 2].map noted) ([0, 1].map noted)
    "color" .null hfinite rfl harranged (by decide) (.null _) _ (List.mem_cons_self)
  rw [hfault, hcause.resolve_right And.right]

/-- A number below the greatest float: its word and its power are both rounded up. -/
def topNumeral : Numeral := numeralOf "17976931348623157000" "289"

/-- Not every number of the range can stand beside the fields of an instruction, and the fault of
a name that stands twice need not be a mismatch where its first value has another. -/
theorem number_of_range_is_refused :
    topNumeral.scaled.value ≤ Binary64.greatest ∧
      (decode "\x7b\"op\":\"begin_path\",\"a\":17976931348623157000e+289\x7d"
        : Except Fault (Instruction Float32)) = .error .malformed ∧
      (Value.object [("op", .string "begin_path"), ("a", .number topNumeral)]).compactText
        = "\x7b\"op\":\"begin_path\",\"a\":17976931348623157000e+289\x7d" ∧
      decode (encode (Instruction.beginPath : Instruction Float32))
        = .ok (Instruction.beginPath : Instruction Float32) ∧
      (decode "\x7b\"x\":5,\"x\":\"centered\",\"y\":\"centered\"\x7d"
        : Except Fault (Start Float32)) = .error .malformed := by
  have hscaled : topNumeral.scaled = ⟨17976931348623157000, (289 : ℕ)⟩ := by decide +kernel
  refine ⟨?_, by decide +kernel, by decide +kernel, by decide +kernel, by decide +kernel⟩
  rw [value_of_scaled hscaled]
  exact Binary64.natCast_le_greatest (by decide +kernel)

end LineArt
