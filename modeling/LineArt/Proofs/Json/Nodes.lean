import LineArt.Json.Form
import LineArt.Proofs.Json.Numerals

/-!
# Texts as nodes

The compact text of a value, and the one laid out over lines, is read back into the tree of
that value, up to its end: blanks between the parts of a text make no difference.  A value
fits a depth if its containers are nested no deeper and its numerals can be read; then its
tree can be taken as a whole.
-/

namespace LineArt.Json

/-! ### The tree of a value -/

def boolWord (b : Bool) : Word := if b then .true else .false

def writtenName (name : String) : Quoted := ⟨name.toList.map pieceOf, none⟩

namespace Value

mutual

/-- The tree that the text of a value is read into. -/
def node : Value → Node
  | null => .word (.ok .null)
  | bool b => .word (.ok (boolWord b))
  | number n => .number (.ok n)
  | string s => .string (writtenName s)
  | array items => .array (itemNodes items) .closed
  | object members => .object (memberNodes members) .closed

def itemNodes : List Value → List Node
  | [] => []
  | v :: vs => node v :: itemNodes vs

def memberNodes : List (String × Value) → List (Quoted × Node)
  | [] => []
  | (name, v) :: ms => (writtenName name, node v) :: memberNodes ms

end

theorem itemNodes_eq_map (vs : List Value) : itemNodes vs = vs.map node := by
  induction vs with
  | nil => rfl
  | cons v vs ih => rw [itemNodes, ih, List.map_cons]

theorem memberNodes_eq_map (ms : List (String × Value)) :
    memberNodes ms = ms.map fun m => (writtenName m.1, m.2.node) := by
  induction ms with
  | nil => rfl
  | cons m ms ih => rw [memberNodes, ih, List.map_cons]

@[simp] theorem chars_writtenName (name : String) : (writtenName name).chars = .ok name.toList :=
  Quoted.chars_written name.toList

/-- Values with numerals as JSON allows them, of any size. -/
inductive Proper : Value → Prop where
  | null : Proper null
  | bool (b : Bool) : Proper (bool b)
  | number {n : Numeral} (proper : n.Proper) : Proper (number n)
  | string (s : String) : Proper (string s)
  | array {items : List Value} (items_proper : ∀ v ∈ items, Proper v) : Proper (array items)
  | object {members : List (String × Value)} (members_proper : ∀ m ∈ members, Proper m.2) :
    Proper (object members)

/-- Values that can be read at a depth still to go. -/
inductive Fits : Nat → Value → Prop where
  | null (depth : Nat) : Fits depth null
  | bool (depth : Nat) (b : Bool) : Fits depth (bool b)
  | number (depth : Nat) {n : Numeral} (proper : n.Proper) (read : ∃ x, numberOf n = .ok x) :
    Fits depth (number n)
  | string (depth : Nat) (s : String) : Fits depth (string s)
  | array {depth : Nat} {items : List Value} (items_fit : ∀ v ∈ items, Fits (depth + 1) v) :
    Fits (depth + 2) (array items)
  | object {depth : Nat} {members : List (String × Value)}
    (members_fit : ∀ m ∈ members, Fits (depth + 1) m.2) : Fits (depth + 2) (object members)

theorem Fits.mono {depth depth' : Nat} {v : Value} (h : Fits depth v) (hle : depth ≤ depth') :
    Fits depth' v := by
  induction h generalizing depth' with
  | null depth => exact .null depth'
  | bool depth b => exact .bool depth' b
  | number depth hproper hread => exact .number depth' hproper hread
  | string depth s => exact .string depth' s
  | @array depth items hitems ih =>
    obtain ⟨d, rfl⟩ : ∃ d, depth' = d + 2 := ⟨depth' - 2, by omega⟩
    exact .array fun v hv => ih v hv (by omega)
  | @object depth members hmembers ih =>
    obtain ⟨d, rfl⟩ : ∃ d, depth' = d + 2 := ⟨depth' - 2, by omega⟩
    exact .object fun m hm => ih m hm (by omega)

theorem Fits.proper {depth : Nat} {v : Value} (h : Fits depth v) : v.Proper := by
  induction h with
  | null depth => exact .null
  | bool depth b => exact .bool b
  | number depth hproper hread => exact .number hproper
  | string depth s => exact .string s
  | array hitems ih => exact .array ih
  | object hmembers ih => exact .object ih

end Value

/-! ### Taking the tree as a whole -/

namespace Node

@[simp] theorem enter_succ (depth : Nat) : enter (depth + 2) = .ok (depth + 1) := by
  unfold enter
  rw [if_neg (by omega)]
  rfl

theorem checkItems_of_forall {depth : Nat} {nodes : List Node}
    (h : ∀ n ∈ nodes, check depth n = .ok ()) : checkItems depth nodes = .ok () := by
  induction nodes with
  | nil => rfl
  | cons n nodes ih =>
    obtain ⟨hn, hrest⟩ := List.forall_mem_cons.1 h
    rw [checkItems, hn, ok_bind]
    exact ih hrest

theorem checkMembers_of_forall {depth : Nat} {members : List (String × Value)}
    (h : ∀ m ∈ members, check depth m.2.node = .ok ()) :
    checkMembers depth (Value.memberNodes members) = .ok () := by
  induction members with
  | nil => rfl
  | cons m members ih =>
    obtain ⟨hm, hrest⟩ := List.forall_mem_cons.1 h
    rw [Value.memberNodes, checkMembers, Value.chars_writtenName, ok_bind, hm, ok_bind]
    exact ih hrest

theorem check_of_fits {depth : Nat} {v : Value} (h : v.Fits depth) :
    check depth v.node = .ok () := by
  induction h with
  | null depth => rfl
  | bool depth b => rfl
  | number depth hproper hread =>
    obtain ⟨x, hx⟩ := hread
    simp [Value.node, check, hx]
  | string depth s => simp [Value.node, check, Except.map]
  | array hitems ih =>
    have hall := checkItems_of_forall (List.forall_mem_map.2 ih)
    simp [Value.node, check, Value.itemNodes_eq_map, hall, Ending.finish]
  | object hmembers ih =>
    have hall := checkMembers_of_forall ih
    simp [Value.node, check, hall, Ending.finish]

end Node

/-! ### Blanks -/

def Blanks (bs : List Char) : Prop := ∀ c ∈ bs, isBlank c = true

theorem blanks_newline (depth : Nat) : Blanks (Value.newline depth) := by
  refine List.forall_mem_cons.2 ⟨by decide, fun c hc => ?_⟩
  obtain rfl := List.eq_of_mem_replicate hc
  decide

theorem skipBlanks_cons {c : Char} (h : isBlank c = false) (rest : List Char) :
    skipBlanks (c :: rest) = c :: rest := by
  simp [skipBlanks, h]

section Blanks

variable {bs : List Char} (h : Blanks bs)

include h

theorem skipBlanks_append (text : List Char) : skipBlanks (bs ++ text) = skipBlanks text :=
  List.dropWhile_append_of_pos h

theorem readNode_append (n : Nat) (text : List Char) :
    readNode n (bs ++ text) = readNode n text := by
  cases n with
  | zero => rfl
  | succ n => rw [readNode, readNode, skipBlanks_append h]

theorem endsNumeral_append {rest : List Char} (hrest : EndsNumeral rest) :
    EndsNumeral (bs ++ rest) := by
  cases bs with
  | nil => exact hrest
  | cons b bs =>
    have hb := h b List.mem_cons_self
    intro c hc
    obtain rfl : b = c := Option.some.inj hc
    simp only [isBlank, Bool.or_eq_true, decide_eq_true_eq] at hb
    rcases hb with ((rfl | rfl) | rfl) | rfl <;> decide

end Blanks

/-- The blanks that a layout puts between the brackets of an array or an object. -/
structure Spacing where
  /-- In front of each item or member. -/
  line : List Char
  /-- Behind the colon of a member. -/
  colon : List Char
  /-- In front of the closing bracket. -/
  last : List Char

structure Spacing.Blank (sp : Spacing) : Prop where
  line : Blanks sp.line
  colon : Blanks sp.colon
  last : Blanks sp.last

namespace Spacing

def tight : Spacing := ⟨[], [], []⟩

def lines (depth : Nat) : Spacing := ⟨Value.newline (depth + 1), [' '], Value.newline depth⟩

theorem blank_tight : tight.Blank :=
  ⟨List.forall_mem_nil _, List.forall_mem_nil _, List.forall_mem_nil _⟩

theorem blank_lines (depth : Nat) : (lines depth).Blank :=
  ⟨blanks_newline (depth + 1), List.forall_mem_singleton.2 (by decide), blanks_newline depth⟩

end Spacing

/-! ### Reading the text -/

/-- A text of a value is read into its tree, by any bound of the recursion that its length
allows for. -/
structure Value.ReadsAs (v : Value) (text : List Char) : Prop where
  head : ∃ c cs, text = c :: cs ∧ isBlank c = false ∧ c ≠ ']'
  read : ∀ rest, EndsNumeral rest → ∀ n, 3 * text.length ≤ n →
    readNode n (text ++ rest) = (v.node, some rest)

section Containers

open Value

variable {sp : Spacing} (hsp : sp.Blank) {textOf : Value → List Char}

def itemsText (sp : Spacing) (textOf : Value → List Char) (vs : List Value) : List Char :=
  separated (',' :: sp.line) (vs.map textOf)

theorem itemsText_cons_cons (v w : Value) (vs : List Value) :
    itemsText sp textOf (v :: w :: vs)
      = textOf v ++ ',' :: (sp.line ++ itemsText sp textOf (w :: vs)) := by
  simp [itemsText, separated]

theorem exists_itemsText_eq_cons (sp : Spacing) {v : Value} (h : v.ReadsAs (textOf v))
    (vs : List Value) :
    ∃ c cs, itemsText sp textOf (v :: vs) = c :: cs ∧ isBlank c = false ∧ c ≠ ']' := by
  obtain ⟨c, cs, htext, hblank, hclose⟩ := h.head
  cases vs with
  | nil => exact ⟨c, cs, htext, hblank, hclose⟩
  | cons w vs =>
    refine ⟨c, cs ++ ',' :: (sp.line ++ itemsText sp textOf (w :: vs)), ?_, hblank, hclose⟩
    rw [itemsText_cons_cons, htext, List.cons_append]

include hsp

theorem readItemsFrom_itemsText {v : Value} {vs : List Value}
    (h : ∀ w ∈ v :: vs, w.ReadsAs (textOf w)) (rest : List Char) {n : Nat}
    (hn : 3 * (itemsText sp textOf (v :: vs)).length < n) :
    readItemsFrom n (itemsText sp textOf (v :: vs) ++ (sp.last ++ ']' :: rest))
      = (itemNodes (v :: vs), .closed, some rest) := by
  have hcomma : isBlank ',' = false := by decide
  have hclose : isBlank ']' = false := by decide
  induction vs generalizing v n with
  | nil =>
    obtain ⟨n, rfl⟩ : ∃ m, n = m + 1 := ⟨n - 1, by omega⟩
    have htext : itemsText sp textOf [v] = textOf v := rfl
    have hends := endsNumeral_append hsp.last (endsNumeral_cons (c := ']') (by simp) rest)
    rw [htext] at hn ⊢
    have hread := (h v (List.mem_singleton_self v)).read _ hends n (by omega)
    simp [readItemsFrom, hread, skipBlanks_append hsp.last, skipBlanks_cons hclose, itemNodes]
  | cons w vs ih =>
    obtain ⟨n, rfl⟩ : ∃ m, n = m + 1 := ⟨n - 1, by omega⟩
    obtain ⟨hv, hrest⟩ := List.forall_mem_cons.1 h
    have hends := endsNumeral_cons (c := ',') (by simp)
      (sp.line ++ (itemsText sp textOf (w :: vs) ++ (sp.last ++ ']' :: rest)))
    rw [itemsText_cons_cons, List.length_append, List.length_cons, List.length_append] at hn
    have hread := hv.read _ hends n (by omega)
    have hnext := ih hrest (n := n) (by omega)
    obtain ⟨d, ds, htext, hblank, hd⟩ :=
      exists_itemsText_eq_cons sp (hrest w List.mem_cons_self) vs
    rw [itemsText_cons_cons, List.append_assoc, List.cons_append, List.append_assoc]
    rw [htext, List.cons_append] at hread hnext ⊢
    simp [readItemsFrom, hread, hnext, skipBlanks_append hsp.line, skipBlanks_cons hcomma,
      skipBlanks_cons hblank, hd, itemNodes]

omit hsp

/-- A member without the quote that opens its name. -/
def memberBody (sp : Spacing) (textOf : Value → List Char) (m : String × Value) : List Char :=
  m.1.toList.flatMap escape ++ '"' :: ':' :: (sp.colon ++ textOf m.2)

def membersText (sp : Spacing) (textOf : Value → List Char) (ms : List (String × Value)) :
    List Char :=
  separated (',' :: sp.line) (ms.map fun m => '"' :: memberBody sp textOf m)

/-- What follows the quote that opens the first name. -/
def membersBody (sp : Spacing) (textOf : Value → List Char) : List (String × Value) → List Char
  | [] => []
  | [m] => memberBody sp textOf m
  | m :: k :: ms =>
    memberBody sp textOf m ++ ',' :: (sp.line ++ '"' :: membersBody sp textOf (k :: ms))

theorem membersText_cons (m : String × Value) (ms : List (String × Value)) :
    membersText sp textOf (m :: ms) = '"' :: membersBody sp textOf (m :: ms) := by
  induction ms generalizing m with
  | nil => rfl
  | cons k ms ih =>
    have hk := ih k
    simp only [membersText, List.map_cons, separated, membersBody] at hk ⊢
    rw [hk]
    simp

include hsp

theorem readMembersFrom_membersBody {m : String × Value} {ms : List (String × Value)}
    (h : ∀ k ∈ m :: ms, k.2.ReadsAs (textOf k.2)) (rest : List Char) {n : Nat}
    (hn : 3 * (membersBody sp textOf (m :: ms)).length < n) :
    readMembersFrom n (membersBody sp textOf (m :: ms) ++ (sp.last ++ '\x7d' :: rest))
      = (memberNodes (m :: ms), .closed, some rest) := by
  have hcolon : isBlank ':' = false := by decide
  have hquote : isBlank '"' = false := by decide
  have hcomma : isBlank ',' = false := by decide
  have hclose : isBlank '\x7d' = false := by decide
  induction ms generalizing m n with
  | nil =>
    obtain ⟨n, rfl⟩ : ∃ k, n = k + 1 := ⟨n - 1, by omega⟩
    obtain ⟨name, v⟩ := m
    have hends := endsNumeral_append hsp.last (endsNumeral_cons (c := '\x7d') (by simp) rest)
    simp only [membersBody, memberBody, List.length_append, List.length_cons] at hn
    have hv : v.ReadsAs (textOf v) := h (name, v) (List.mem_singleton_self _)
    have hread := hv.read _ hends n (by omega)
    have hname := Quoted.read_quote name.toList
      (':' :: (sp.colon ++ (textOf v ++ (sp.last ++ '\x7d' :: rest))))
    simp [readMembersFrom, membersBody, memberBody, hname, hread, readNode_append hsp.colon,
      skipBlanks_append hsp.last, skipBlanks_cons hcolon, skipBlanks_cons hclose, memberNodes,
      writtenName]
  | cons k ms ih =>
    obtain ⟨n, rfl⟩ : ∃ k, n = k + 1 := ⟨n - 1, by omega⟩
    obtain ⟨name, v⟩ := m
    have hv : v.ReadsAs (textOf v) := h (name, v) List.mem_cons_self
    obtain ⟨-, hrest⟩ := List.forall_mem_cons.1 h
    have hends := endsNumeral_cons (c := ',') (by simp)
      (sp.line ++ '"' :: (membersBody sp textOf (k :: ms) ++ (sp.last ++ '\x7d' :: rest)))
    simp only [membersBody, memberBody, List.length_append, List.length_cons] at hn
    have hread := hv.read _ hends n (by omega)
    have hnext := ih hrest (n := n) (by omega)
    have hname := Quoted.read_quote name.toList (':' :: (sp.colon ++ (textOf v ++ ',' ::
      (sp.line ++ '"' :: (membersBody sp textOf (k :: ms) ++ (sp.last ++ '\x7d' :: rest))))))
    simp [readMembersFrom, membersBody, memberBody, hname, hread, hnext,
      readNode_append hsp.colon, skipBlanks_append hsp.line, skipBlanks_cons hcolon,
      skipBlanks_cons hcomma, skipBlanks_cons hquote, memberNodes, writtenName]

end Containers

/-! ### Values -/

theorem readLetters_append (letters rest : List Char) :
    readLetters letters (letters ++ rest) = .ok rest := by
  induction letters with
  | nil => cases rest <;> rfl
  | cons l ls ih => simp [readLetters, ih]

namespace Value

theorem readsAs_word {v : Value} {w : Word} {c : Char} {letters : List Char}
    (hnode : v.node = .word (.ok w)) (hhead : isBlank c = false ∧ c ≠ ']')
    (hread : ∀ n rest, readNode (n + 1) (c :: rest) = readWord w letters rest) :
    v.ReadsAs (c :: letters) where
  head := ⟨c, letters, rfl, hhead⟩
  read rest _ n hn := by
    rw [List.length_cons] at hn
    obtain ⟨n, rfl⟩ : ∃ m, n = m + 1 := ⟨n - 1, by omega⟩
    rw [List.cons_append, hread, readWord, readLetters_append, hnode]

theorem readsAs_null : null.ReadsAs "null".toList := by
  have htext : "null".toList = 'n' :: ['u', 'l', 'l'] := by decide
  rw [htext]
  refine readsAs_word rfl (by decide) fun n rest => ?_
  simp [readNode, skipBlanks_cons (c := 'n') (by decide)]

theorem readsAs_bool (b : Bool) : (bool b).ReadsAs (boolText b) := by
  cases b with
  | true =>
    have htext : boolText true = 't' :: ['r', 'u', 'e'] := by decide
    rw [htext]
    refine readsAs_word rfl (by decide) fun n rest => ?_
    simp [readNode, boolWord, skipBlanks_cons (c := 't') (by decide)]
  | false =>
    have htext : boolText false = 'f' :: ['a', 'l', 's', 'e'] := by decide
    rw [htext]
    refine readsAs_word rfl (by decide) fun n rest => ?_
    simp [readNode, boolWord, skipBlanks_cons (c := 'f') (by decide)]

theorem readsAs_string (s : String) : (string s).ReadsAs (quote s.toList) where
  head := ⟨'"', _, rfl, by decide⟩
  read rest _ n hn := by
    simp only [quote, List.length_append, List.length_cons] at hn
    obtain ⟨n, rfl⟩ : ∃ m, n = m + 1 := ⟨n - 1, by omega⟩
    have hquote : isBlank '"' = false := by decide
    have hread := Quoted.read_quote s.toList rest
    simp [quote, readNode, skipBlanks_cons hquote, hread, node, writtenName]

theorem readsAs_number {m : Numeral} (h : m.Proper) : (number m).ReadsAs m.text := by
  obtain ⟨c, text, htext, hc⟩ := exists_text_eq_cons h
  -- A sign or a digit is none of the characters that begin another value.
  have hne {d : Char} (hminus : d ≠ '-') (hdigit : Digit.ofChar? d = none) : c ≠ d := by
    rintro rfl
    rcases hc with rfl | hc
    · exact hminus rfl
    · rw [hdigit] at hc
      contradiction
  have hblank : isBlank c = false := by
    have h1 : c ≠ ' ' := hne (by decide) (by decide)
    have h2 : c ≠ '\n' := hne (by decide) (by decide)
    have h3 : c ≠ '\t' := hne (by decide) (by decide)
    have h4 : c ≠ '\r' := hne (by decide) (by decide)
    simp [isBlank, h1, h2, h3, h4]
  refine ⟨⟨c, text, htext, hblank, hne (by decide) (by decide)⟩, ?_⟩
  intro rest hrest n hn
  rw [htext, List.length_cons] at hn
  obtain ⟨n, rfl⟩ : ∃ k, n = k + 1 := ⟨n - 1, by omega⟩
  have hread := readNumeral_text h hrest
  have h1 : c ≠ '[' := hne (by decide) (by decide)
  have h2 : c ≠ '\x7b' := hne (by decide) (by decide)
  have h3 : c ≠ '"' := hne (by decide) (by decide)
  have h4 : c ≠ 'n' := hne (by decide) (by decide)
  have h5 : c ≠ 't' := hne (by decide) (by decide)
  have h6 : c ≠ 'f' := hne (by decide) (by decide)
  rw [htext, List.cons_append] at hread
  rw [htext, List.cons_append]
  simp [readNode, skipBlanks_cons hblank, h1, h2, h3, h4, h5, h6, hc, readNumber, hread, node]

section Containers

variable {sp : Spacing} (hsp : sp.Blank) {textOf : Value → List Char}

theorem readsAs_array_nil : (array []).ReadsAs ['[', ']'] where
  head := ⟨'[', [']'], rfl, by decide⟩
  read rest _ n hn := by
    obtain ⟨n, rfl⟩ : ∃ m, n = m + 2 := ⟨n - 2, by simp at hn; omega⟩
    have hopen : isBlank '[' = false := by decide
    have hclose : isBlank ']' = false := by decide
    simp [readNode, readItems, skipBlanks_cons hopen, skipBlanks_cons hclose, node, itemNodes]

theorem readsAs_object_nil : (object []).ReadsAs ['\x7b', '\x7d'] where
  head := ⟨'\x7b', ['\x7d'], rfl, by decide⟩
  read rest _ n hn := by
    obtain ⟨n, rfl⟩ : ∃ m, n = m + 2 := ⟨n - 2, by simp at hn; omega⟩
    have hopen : isBlank '\x7b' = false := by decide
    have hclose : isBlank '\x7d' = false := by decide
    simp [readNode, readMembers, skipBlanks_cons hopen, skipBlanks_cons hclose, node, memberNodes]

include hsp

theorem readsAs_array {v : Value} {vs : List Value} (h : ∀ w ∈ v :: vs, w.ReadsAs (textOf w)) :
    (array (v :: vs)).ReadsAs
      ('[' :: (sp.line ++ (itemsText sp textOf (v :: vs) ++ (sp.last ++ [']'])))) where
  head := ⟨'[', _, rfl, by decide⟩
  read rest _ n hn := by
    have hopen : isBlank '[' = false := by decide
    simp only [List.length_append, List.length_cons, List.length_nil] at hn
    obtain ⟨n, rfl⟩ : ∃ m, n = m + 2 := ⟨n - 2, by omega⟩
    have hread := readItemsFrom_itemsText hsp h rest (n := n) (by omega)
    obtain ⟨c, cs, hitems, hblank, hc⟩ :=
      exists_itemsText_eq_cons sp (h v List.mem_cons_self) vs
    rw [hitems, List.cons_append] at hread
    simp [hitems, readNode, skipBlanks_append hsp.line, readItems, skipBlanks_cons hopen,
      skipBlanks_cons hblank, hc, hread, node]

theorem readsAs_object {m : String × Value} {ms : List (String × Value)}
    (h : ∀ k ∈ m :: ms, k.2.ReadsAs (textOf k.2)) :
    (object (m :: ms)).ReadsAs
      ('\x7b' :: (sp.line ++ (membersText sp textOf (m :: ms) ++ (sp.last ++ ['\x7d'])))) where
  head := ⟨'\x7b', _, rfl, by decide⟩
  read rest _ n hn := by
    have hopen : isBlank '\x7b' = false := by decide
    have hquote : isBlank '"' = false := by decide
    rw [membersText_cons] at hn ⊢
    simp only [List.length_append, List.length_cons, List.length_nil] at hn
    obtain ⟨n, rfl⟩ : ∃ m, n = m + 2 := ⟨n - 2, by omega⟩
    have hread := readMembersFrom_membersBody hsp h rest (n := n) (by omega)
    simp [readNode, skipBlanks_append hsp.line, readMembers, skipBlanks_cons hopen,
      skipBlanks_cons hquote, hread, node]

end Containers

/-! ### Compact and indented texts -/

theorem compactItems_eq_map (vs : List Value) : compactItems vs = vs.map compact := by
  induction vs with
  | nil => rfl
  | cons v vs ih => rw [compactItems, ih, List.map_cons]

theorem compactMembers_eq_map (ms : List (String × Value)) :
    compactMembers ms = ms.map fun m => '"' :: memberBody .tight compact m := by
  induction ms with
  | nil => rfl
  | cons m ms ih =>
    rw [compactMembers, ih, List.map_cons]
    simp [memberBody, Spacing.tight, quote]

theorem indentedItems_eq_map (depth : Nat) (vs : List Value) :
    indentedItems depth vs = vs.map (indented depth) := by
  induction vs with
  | nil => rfl
  | cons v vs ih => rw [indentedItems, ih, List.map_cons]

theorem indentedMembers_eq_map (depth : Nat) (ms : List (String × Value)) :
    indentedMembers (depth + 1) ms
      = ms.map fun m => '"' :: memberBody (.lines depth) (indented (depth + 1)) m := by
  induction ms with
  | nil => rfl
  | cons m ms ih =>
    rw [indentedMembers, ih, List.map_cons]
    simp [memberBody, Spacing.lines, quote]

theorem Proper.readsAs_compact {v : Value} (h : v.Proper) : v.ReadsAs v.compact := by
  induction h with
  | null => exact readsAs_null
  | bool b => exact readsAs_bool b
  | number hproper => exact readsAs_number hproper
  | string s => exact readsAs_string s
  | @array items hitems ih =>
    cases items with
    | nil => exact readsAs_array_nil
    | cons v vs =>
      have h := readsAs_array Spacing.blank_tight ih
      simpa [compact, compactItems_eq_map, itemsText, Spacing.tight] using h
  | @object members hmembers ih =>
    cases members with
    | nil => exact readsAs_object_nil
    | cons m ms =>
      have h := readsAs_object Spacing.blank_tight ih
      simpa [compact, compactMembers_eq_map, membersText, Spacing.tight] using h

theorem Proper.readsAs_indented {v : Value} (h : v.Proper) (indent : Nat) :
    v.ReadsAs (v.indented indent) := by
  induction h generalizing indent with
  | null => exact readsAs_null
  | bool b => exact readsAs_bool b
  | number hproper => exact readsAs_number hproper
  | string s => exact readsAs_string s
  | @array items hitems ih =>
    cases items with
    | nil => exact readsAs_array_nil
    | cons v vs =>
      have h := readsAs_array (Spacing.blank_lines indent) fun w hw => ih w hw (indent + 1)
      simpa [indented, block, indentedItems_eq_map, itemsText, Spacing.lines] using h
  | @object members hmembers ih =>
    cases members with
    | nil => exact readsAs_object_nil
    | cons m ms =>
      have h := readsAs_object (Spacing.blank_lines indent) fun k hk => ih k hk (indent + 1)
      simpa [indented, block, indentedMembers_eq_map, membersText, Spacing.lines] using h

end Value

/-- The whole text of a value is its tree, with nothing left over. -/
theorem Value.ReadsAs.read_whole {v : Value} {text : List Char} (h : v.ReadsAs text) :
    Node.read text = (v.node, some []) := by
  have hread := h.read [] endsNumeral_nil (3 * text.length + 3) (by omega)
  rwa [List.append_nil] at hread

theorem read_compactText {v : Value} (h : v.Proper) :
    Node.read v.compactText.toList = (v.node, some []) := by
  rw [Value.compactText, String.toList_ofList]
  exact h.readsAs_compact.read_whole

theorem read_prettyText {v : Value} (h : v.Proper) :
    Node.read v.prettyText.toList = (v.node, some []) := by
  rw [Value.prettyText, String.toList_ofList]
  exact (h.readsAs_indented 0).read_whole

end LineArt.Json
