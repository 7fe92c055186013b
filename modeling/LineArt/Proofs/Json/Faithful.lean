import LineArt.Json.Record
import LineArt.Proofs.Json.Floats
import LineArt.Proofs.Json.Nodes

/-!
# Faithful forms

A form is faithful if reading what it wrote gives the value back, its floats as their own
texts are read, and if what keeps a value from being read is a mismatch.  Faithfulness
is lifted through options, lists, arrays, pairs, variants and records.
-/

namespace LineArt.Json

open Value (Fits itemNodes memberNodes)

/-! ### Outcomes -/

/-- The value where `ok` holds, and a mismatch elsewhere. -/
def outcome {α : Type} (ok : Bool) (a : α) : Except Fault α :=
  if ok then .ok a else .error .mismatch

section Outcomes

variable {α β : Type}

@[simp] theorem outcome_true (a : α) : outcome true a = .ok a := rfl

@[simp] theorem outcome_false (a : α) : outcome false a = .error .mismatch := rfl

@[simp] theorem map_outcome (f : α → β) (ok : Bool) (a : α) :
    (outcome ok a).map f = outcome ok (f a) := by
  cases ok <;> rfl

/-- What is read again as it was where `ok` holds has that outcome. -/
theorem outcome_kept {ok : α → Bool} {reread : α → α} (hkeep : ∀ a, ok a = true → reread a = a)
    (a : α) : outcome (ok a) (reread a) = outcome (ok a) a := by
  cases hok : ok a with
  | false => rfl
  | true => rw [hkeep a hok]

theorem bind_ok (x : Except Fault α) : (x >>= fun a => .ok a) = x := by
  cases x <;> rfl

theorem outcome_bind (ok ok' : Bool) (a : α) {b : β} {next : α → Except Fault β}
    (h : next a = outcome ok' b) : outcome ok a >>= next = outcome (ok && ok') b := by
  cases ok with
  | true => exact h
  | false => rfl

theorem outcome_bind_ok (ok : Bool) (a : α) {b : β} {next : α → Except Fault β}
    (h : next a = .ok b) : outcome ok a >>= next = outcome ok b := by
  rw [outcome_bind ok true a h, Bool.and_true]

end Outcomes

/-- The values that are `ok` are read back as `reread` makes them, the others not at all. -/
structure Faithful (α : Type) [Form α] (depth : Nat) (ok : α → Bool) (reread : α → α) : Prop where
  fits : ∀ a : α, (Form.write a).Fits depth
  read : ∀ {d : Nat}, depth ≤ d → ∀ a : α,
    Form.read d (Form.write a).node = outcome (ok a) (reread a)

section Composition

variable {α : Type} [Form α] {depth : Nat} {ok : α → Bool} {reread : α → α}

theorem Faithful.mono (h : Faithful α depth ok reread) {depth' : Nat} (hle : depth ≤ depth') :
    Faithful α depth' ok reread where
  fits a := (h.fits a).mono hle
  read hd a := h.read (hle.trans hd) a

theorem decode_eq_read_of_blanks {text : String} {node : Node} {rest : List Char}
    (h : Node.read text.toList = (node, some rest)) (hblank : Blanks rest) :
    decode text = Form.read (α := α) depthLimit node := by
  have hskip : skipBlanks rest = [] := List.dropWhile_eq_nil_iff.2 hblank
  unfold decode
  rw [h]
  dsimp only
  rw [hskip]
  exact bind_ok _

theorem decode_eq_read {text : String} {node : Node}
    (h : Node.read text.toList = (node, some [])) :
    decode text = Form.read (α := α) depthLimit node :=
  decode_eq_read_of_blanks h (List.forall_mem_nil _)

theorem decode_encode_eq_read {a : α} {depth : Nat} (h : (Form.write a).Fits depth) :
    decode (encode a) = Form.read (α := α) depthLimit (Form.write a).node :=
  decode_eq_read (read_compactText h.proper)

section Texts

variable (h : Faithful α depth ok reread) (hle : depth ≤ depthLimit) (a : α)

include h hle

theorem Faithful.decode_encode : decode (encode a) = outcome (ok a) (reread a) := by
  rw [decode_encode_eq_read (h.fits a), h.read hle]

theorem Faithful.decode_prettyText :
    decode (Form.write a).prettyText = outcome (ok a) (reread a) := by
  rw [decode_eq_read (read_prettyText (h.fits a).proper), h.read hle]

end Texts

end Composition

/-! ### Basic types -/

theorem string_faithful : Faithful String 0 (fun _ => true) id where
  fits s := .string 0 s
  read _ s := by
    show (Quoted.chars (writtenName s)).map String.ofList = _
    rw [Value.chars_writtenName]
    simp [Except.map]

theorem char_faithful : Faithful Char 0 (fun _ => true) id where
  fits c := .string 0 _
  read _ c := by
    show (Quoted.chars (writtenName (String.ofList [c])) >>= _) = _
    rw [Value.chars_writtenName, String.toList_ofList]
    rfl

theorem nat_fits {n : Nat} (h : n < wordBound) : (Value.nat n).Fits 0 :=
  .number 0 (Numeral.proper_ofNat n) ⟨_, numberOf_ofNat h⟩

theorem natBelow_nat {n bound : Nat} (h : n < bound) (hbound : bound ≤ wordBound) :
    (Value.nat n).node.natBelow bound = .ok n := by
  have hread := numberOf_ofNat (h.trans_le hbound)
  simp [Value.nat, Value.node, Node.natBelow, Node.numeric, hread, h]

theorem uint8_faithful : Faithful UInt8 0 (fun _ => true) id where
  fits n := nat_fits (n.toNat_lt.trans (by decide))
  read _ n := by
    show ((Value.nat n.toNat).node.natBelow 0x100).map UInt8.ofNat = _
    rw [natBelow_nat n.toNat_lt (by decide)]
    simp [Except.map]

theorem uint32_faithful : Faithful UInt32 0 (fun _ => true) id where
  fits n := nat_fits (n.toNat_lt.trans (by decide))
  read _ n := by
    show ((Value.nat n.toNat).node.natBelow 0x100000000).map UInt32.ofNat = _
    rw [natBelow_nat n.toNat_lt (by decide)]
    simp [Except.map]

/-- The number read from the text of a float; a float that has none stays. -/
def reread (x : Float32) : Float32 :=
  match (decode (encode x) : Except Fault Float32) with
  | .ok y => y
  | .error _ => x

theorem float_fits (x : Float32) : (Value.float x).Fits 0 := by
  unfold Value.float
  cases h : x.isFinite with
  | false =>
    rw [numeral?_eq_none Value.floatLayout h]
    exact .null 0
  | true =>
    obtain ⟨n, hn, hproper, hplaces⟩ := exists_numeral? Value.floatLayout h
    rw [hn]
    exact .number 0 hproper (exists_numberOf (hplaces.trans (by decide)))

theorem float_faithful : Faithful Float32 0 Float32.isFinite reread where
  fits := float_fits
  read {d} _ x := by
    -- The depth plays no part in reading a number, so the text alone decides.
    have hdecode : decode (encode x) = Form.read (α := Float32) d (Value.float x).node :=
      decode_encode_eq_read (a := x) (float_fits x)
    show Form.read d (Value.float x).node = _
    cases h : x.isFinite with
    | false =>
      unfold Value.float
      rw [numeral?_eq_none Value.floatLayout h]
      rfl
    | true =>
      obtain ⟨n, hn, -, hplaces⟩ := exists_numeral? Value.floatLayout h
      obtain ⟨y, hy⟩ := exists_numberOf (hplaces.trans (by decide))
      have hread : Form.read d (Value.float x).node = .ok y.toFloat32 := by
        unfold Value.float
        rw [hn]
        show (numberOf n).map Number.toFloat32 = _
        rw [hy]
        rfl
      have hreread : reread x = y.toFloat32 := by
        unfold reread
        rw [hdecode, hread]
      rw [hread, hreread, outcome_true]

/-! ### Options, arrays and pairs -/

section Shapes

variable {α β : Type} [Form α] [Form β] {depth : Nat} {ok : α → Bool} {reread : α → α}
  {ok' : β → Bool} {reread' : β → β}

theorem node_ne_null {v : Value} (h : v ≠ .null) : v.node ≠ .word (.ok .null) := by
  intro hnode
  cases v with
  | null => exact h rfl
  | bool b =>
    have hword : boolWord b = .null := Except.ok.inj (Node.word.inj hnode)
    cases b <;> contradiction
  | number n => contradiction
  | string s => contradiction
  | array items => contradiction
  | object members => contradiction

theorem read_some {node : Node} (h : node ≠ .word (.ok .null)) (d : Nat) :
    (Form.read d node : Except Fault (Option α))
      = (Form.read d node : Except Fault α).map some := by
  cases node with
  | word w =>
    cases w with
    | error f => rfl
    | ok w =>
      cases w with
      | null => exact absurd rfl h
      | true => rfl
      | false => rfl
  | missing f => rfl
  | number n => rfl
  | string q => rfl
  | array items ending => rfl
  | object members ending => rfl

theorem Faithful.option (h : Faithful α depth ok reread)
    (hne : ∀ a : α, Form.write a ≠ .null) :
    Faithful (Option α) depth (fun a => a.all ok) (Option.map reread) where
  fits a := by
    cases a with
    | none => exact .null depth
    | some a => exact h.fits a
  read {d} hd a := by
    cases a with
    | none => rfl
    | some a =>
      show Form.read d (Form.write a).node = _
      rw [read_some (node_ne_null (hne a)), h.read hd, map_outcome]
      rfl

theorem items_array (d : Nat) (vs : List Value) :
    (Value.array vs).node.items (d + 2) = .ok (d + 1, ⟨itemNodes vs, .closed⟩) := by
  simp [Value.node, Node.items]

theorem readAll_written (h : Faithful α depth ok reread) {d : Nat} (hd : depth ≤ d) (as : List α) :
    readAll d .closed (itemNodes (as.map Form.write)) = outcome (as.all ok) (as.map reread) := by
  induction as with
  | nil => rfl
  | cons a as ih =>
    rw [List.map_cons, itemNodes, readAll, h.read hd a]
    refine outcome_bind (ok a) (as.all ok) (reread a) ?_
    rw [ih]
    exact outcome_bind_ok _ _ rfl

theorem Faithful.list (h : Faithful α (depth + 1) ok reread) :
    Faithful (List α) (depth + 2) (fun as => as.all ok) (List.map reread) where
  fits as := .array (List.forall_mem_map.2 fun a _ => h.fits a)
  read {d} hd as := by
    obtain ⟨d, rfl⟩ : ∃ k, d = k + 2 := ⟨d - 2, by omega⟩
    show (Value.array _).node.items (d + 2) >>= _ = _
    rw [items_array, ok_bind]
    exact readAll_written h (by omega) as

theorem readExactly_written (h : Faithful α depth ok reread) {d : Nat} (hd : depth ≤ d)
    (as : List α) :
    readExactly d as.length ⟨itemNodes (as.map Form.write), .closed⟩
      = outcome (as.all ok) ⟨(as.map reread).toArray, by simp⟩ := by
  induction as with
  | nil => rfl
  | cons a as ih =>
    show Form.read d (Form.write a).node >>= _ = _
    rw [h.read hd a]
    refine outcome_bind (ok a) (as.all ok) (reread a) ?_
    rw [ih]
    refine outcome_bind_ok _ _ ?_
    simp

theorem Faithful.vector {n : Nat} (h : Faithful α (depth + 1) ok reread) :
    Faithful (Vector α n) (depth + 2) (fun as => as.toList.all ok) (Vector.map reread) where
  fits as := .array (List.forall_mem_map.2 fun a _ => h.fits a)
  read {d} hd as := by
    obtain ⟨d, rfl⟩ : ∃ k, d = k + 2 := ⟨d - 2, by omega⟩
    show (Value.array _).node.items (d + 2) >>= _ = _
    rw [items_array, ok_bind]
    obtain ⟨⟨as⟩, rfl⟩ := as
    refine (readExactly_written h (by omega) as).trans ?_
    simp [Vector.map]

theorem readPair_written (ha : Faithful α (depth + 1) ok reread)
    (hb : Faithful β (depth + 1) ok' reread') {d : Nat} (hd : depth + 2 ≤ d) (a : α) (b : β) :
    readPair d (Value.array [Form.write a, Form.write b]).node
      = outcome (ok a && ok' b) (reread a, reread' b) := by
  obtain ⟨d, rfl⟩ : ∃ k, d = k + 2 := ⟨d - 2, by omega⟩
  unfold readPair
  rw [items_array, ok_bind]
  show Form.read (d + 1) (Form.write a).node >>= _ = _
  rw [ha.read (by omega)]
  refine outcome_bind _ _ _ ?_
  show Form.read (d + 1) (Form.write b).node >>= _ = _
  rw [hb.read (by omega)]
  exact outcome_bind_ok _ _ rfl

end Shapes

/-! ### Variants -/

section Variants

variable {α : Type} {variants : List (String × Variant α)} {name : String}

theorem readVariant_plain {a : α} (h : Variant.find variants name.toList = .ok (.plain a))
    (d : Nat) : readVariant variants d (Value.string name).node = .ok a := by
  simp [readVariant, Value.node, h]

theorem readVariant_holding {read : Nat → Node → Except Fault α}
    (h : Variant.find variants name.toList = .ok (.holding read)) (d : Nat) (data : Value) :
    readVariant variants (d + 2) (writeHolding name data).node = read (d + 1) data.node := by
  simp [readVariant, writeHolding, Value.node, memberNodes, h, bind_ok]

/-- A variant that holds one value is read back with it. -/
theorem readVariant_written {β : Type} [Form β] (make : β → α) {depth : Nat} {ok : β → Bool}
    {reread : β → β} (hdata : Faithful β (depth + 1) ok reread)
    (h : Variant.find variants name.toList
      = .ok (.holding fun depth node => Form.read depth node >>= fun b => .ok (make b)))
    {d : Nat} (hd : depth + 2 ≤ d) (b : β) :
    readVariant variants d (writeHolding name (Form.write b)).node
      = outcome (ok b) (make (reread b)) := by
  obtain ⟨d, rfl⟩ : ∃ k, d = k + 2 := ⟨d - 2, by omega⟩
  rw [readVariant_holding h, hdata.read (by omega)]
  exact outcome_bind_ok _ _ rfl

theorem holding_fits {data : Value} {depth : Nat} (h : data.Fits (depth + 1)) :
    (writeHolding name data).Fits (depth + 2) :=
  .object (List.forall_mem_singleton.2 h)

theorem find?_name {nameOf : α → String} (hname : Function.Injective nameOf) {all : List α} {a : α}
    (ha : a ∈ all) : all.find? (fun b => (nameOf b).toList = (nameOf a).toList) = some a := by
  induction all with
  | nil => contradiction
  | cons b all ih =>
    by_cases hb : b = a
    · subst hb
      simp
    · have hne : (nameOf b).toList ≠ (nameOf a).toList :=
        fun heq => hb (hname (String.toList_inj.1 heq))
      rw [List.find?_cons_of_neg (by simpa using hne)]
      exact ih ((List.mem_cons.1 ha).resolve_left (Ne.symm hb))

theorem find_plainVariants {nameOf : α → String} (hname : Function.Injective nameOf) {all : List α}
    {a : α} (ha : a ∈ all) :
    Variant.find (plainVariants nameOf all) (nameOf a).toList = .ok (.plain a) := by
  have hfind := find?_name hname ha
  simp [Variant.find, plainVariants, List.find?_map, hfind]

end Variants

end LineArt.Json
