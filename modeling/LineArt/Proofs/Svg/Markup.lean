import Mathlib.Data.List.Infix
import LineArt.Json.Quoted
import LineArt.Svg

/-!
# Reading markup

How a tag is read back from a document.  Behind its name stand the attributes, each after a
blank: a name, an equals sign and a value between double quotes, which runs to the next double
quote.  In a value an ampersand begins a reference, which stands for one character.
-/

namespace LineArt.Markup

/-! ### Words of a text -/

/-- How often a word that is not empty begins in a text. -/
def occurrences (word : List Char) : List Char → ℕ
  | [] => 0
  | c :: text => (if word <+: c :: text then 1 else 0) + occurrences word text

/-- What stands behind the first occurrence of a word that is not empty. -/
def behind? (word : List Char) : List Char → Option (List Char)
  | [] => none
  | c :: text =>
    if word <+: c :: text then some ((c :: text).drop word.length) else behind? word text

section Words

variable {word text rest : List Char} {c : Char}

theorem occurrences_eq_zero_iff (hword : word ≠ []) :
    occurrences word text = 0 ↔ ¬ word <:+: text := by
  induction text with
  | nil => simp [occurrences, hword]
  | cons d text ih =>
    rw [occurrences, Nat.add_eq_zero_iff, ih, List.infix_cons_iff]
    split <;> simp_all

theorem occurrences_eq_zero_of_not_mem (hword : c ∈ word) (htext : c ∉ text) :
    occurrences word text = 0 :=
  (occurrences_eq_zero_iff (List.ne_nil_of_mem hword)).2 fun h => htext (h.subset hword)

/-- A word does not reach across a character that it does not hold. -/
theorem prefix_append_cons_iff (hword : c ∉ word) :
    word <+: text ++ c :: rest ↔ word <+: text := by
  refine ⟨fun h => ?_, fun h => h.trans (List.prefix_append _ _)⟩
  rcases le_or_gt word.length text.length with hle | hlt
  · exact List.prefix_of_prefix_length_le h (List.prefix_append _ _) hle
  · have hpart : text ++ [c] <+: text ++ c :: rest := ⟨rest, by simp⟩
    have hlength : (text ++ [c]).length ≤ word.length := by
      rw [List.length_append, List.length_singleton]
      omega
    have hin := List.prefix_of_prefix_length_le hpart h hlength
    exact absurd (hin.subset (by simp)) hword

theorem not_prefix_cons (hne : word ≠ []) (hword : c ∉ word) : ¬ word <+: c :: rest := by
  intro h
  cases word with
  | nil => contradiction
  | cons d word =>
    obtain ⟨rfl, -⟩ := List.cons_prefix_cons.1 h
    exact hword List.mem_cons_self

theorem occurrences_append_cons (hne : word ≠ []) (hword : c ∉ word) :
    occurrences word (text ++ c :: rest) = occurrences word text + occurrences word rest := by
  induction text with
  | nil =>
    simp only [List.nil_append, occurrences, if_neg (not_prefix_cons hne hword)]
  | cons d text ih =>
    have hiff := @prefix_append_cons_iff word (d :: text) rest c hword
    rw [List.cons_append] at hiff
    rw [List.cons_append, occurrences, occurrences, ih, if_congr hiff rfl rfl, Nat.add_assoc]

theorem behind?_append_cons (hne : word ≠ []) (hword : c ∉ word) (htext : ¬ word <:+: text) :
    behind? word (text ++ c :: rest) = behind? word rest := by
  induction text with
  | nil => rw [List.nil_append, behind?, if_neg (not_prefix_cons hne hword)]
  | cons d text ih =>
    have hiff := @prefix_append_cons_iff word (d :: text) rest c hword
    rw [List.cons_append] at hiff
    rw [List.infix_cons_iff, not_or] at htext
    rw [List.cons_append, behind?, if_neg (mt hiff.1 htext.1), ih htext.2]

theorem behind?_append_self (hne : word ≠ []) : behind? word (word ++ rest) = some rest := by
  cases word with
  | nil => contradiction
  | cons d word =>
    have hprefix : d :: word <+: d :: (word ++ rest) := List.prefix_append (d :: word) rest
    rw [List.cons_append, behind?, if_pos hprefix]
    simp

end Words

/-! ### Tags -/

/-- What is read of a tag: its attributes, with their values as they are written, and whether
its end was found. -/
structure Tag where
  attributes : List (List Char × List Char)
  closed : Bool
deriving DecidableEq

def Tag.add (name value : List Char) (tag : Tag) : Tag :=
  ⟨(name, value) :: tag.attributes, tag.closed⟩

/-- Where a reader of attributes stands. -/
inductive Place where
  /-- Between two attributes, behind a blank or not. -/
  | gap (blank : Bool)
  | name (read : List Char)
  /-- Behind the equals sign. -/
  | sign (name : List Char)
  | value (name read : List Char)
deriving DecidableEq

/-- The tag whose name has been read. -/
def readTag : Place → List Char → Tag
  | _, [] => ⟨[], false⟩
  | .gap blank, c :: text =>
    if c.isWhitespace then readTag (.gap true) text
    else if c = '>' then ⟨[], true⟩
    else if c = '/' then ⟨[], text.head? = some '>'⟩
    else if blank then readTag (.name [c]) text
    else ⟨[], false⟩
  | .name read, c :: text =>
    if c = '=' then readTag (.sign read) text else readTag (.name (read ++ [c])) text
  | .sign name, c :: text =>
    if c = '"' then readTag (.value name []) text else ⟨[], false⟩
  | .value name read, c :: text =>
    if c = '"' then (readTag (.gap false) text).add name read
    else readTag (.value name (read ++ [c])) text

@[simp] theorem readTag_blank (blank : Bool) (text : List Char) :
    readTag (.gap blank) (' ' :: text) = readTag (.gap true) text := rfl

theorem readTag_name {text : List Char} (h : '=' ∉ text) (read rest : List Char) :
    readTag (.name read) (text ++ '=' :: rest) = readTag (.sign (read ++ text)) rest := by
  induction text generalizing read with
  | nil => rw [List.nil_append, readTag, if_pos rfl, List.append_nil]
  | cons c text ih =>
    rw [List.mem_cons, not_or] at h
    rw [List.cons_append, readTag, if_neg (Ne.symm h.1), ih h.2, List.append_assoc,
      List.singleton_append]

theorem readTag_value {text : List Char} (h : '"' ∉ text) (name read rest : List Char) :
    readTag (.value name read) (text ++ '"' :: rest)
      = (readTag (.gap false) rest).add name (read ++ text) := by
  induction text generalizing read with
  | nil => rw [List.nil_append, readTag, if_pos rfl, List.append_nil]
  | cons c text ih =>
    rw [List.mem_cons, not_or] at h
    rw [List.cons_append, readTag, if_neg (Ne.symm h.1), ih h.2, List.append_assoc,
      List.singleton_append]

theorem exists_readTag_value (text name read rest : List Char) :
    ∃ tag : Tag, readTag (.value name read) (text ++ '"' :: rest)
      = tag.add name (read ++ text.takeWhile (· ≠ '"')) := by
  induction text generalizing read with
  | nil => exact ⟨readTag (.gap false) rest, by simp [readTag]⟩
  | cons c text ih =>
    by_cases hc : c = '"'
    · exact ⟨readTag (.gap false) (text ++ '"' :: rest), by simp [readTag, hc]⟩
    · obtain ⟨tag, htag⟩ := ih (read ++ [c])
      exact ⟨tag, by simp [readTag, hc, htag]⟩

/-- Whether a text may be the name of an attribute. -/
def isName : List Char → Bool
  | [] => false
  | c :: rest => !c.isWhitespace && c != '>' && c != '/' && !(c :: rest).contains '='

section Attributes

variable {name : String} (hname : isName name.toList = true) (value rest : List Char)

include hname

theorem readTag_beginning :
    readTag (.gap true) (Svg.assigned name value ++ rest)
      = readTag (.value name.toList []) (value ++ '"' :: rest) := by
  cases hcons : name.toList with
  | nil =>
    rw [hcons] at hname
    contradiction
  | cons c letters =>
    rw [hcons] at hname
    simp only [isName, Bool.and_eq_true, Bool.not_eq_true', bne_iff_ne,
      List.contains_eq_mem, decide_eq_false_iff_not] at hname
    obtain ⟨⟨⟨hblank, hend⟩, hslash⟩, hsign⟩ := hname
    have hletters : '=' ∉ letters := fun hmem => hsign (List.mem_cons_of_mem _ hmem)
    have htext : Svg.assigned name value ++ rest
        = c :: (letters ++ '=' :: '"' :: (value ++ '"' :: rest)) := by
      simp [Svg.assigned, hcons]
    rw [htext, readTag, if_neg (by simp [hblank]), if_neg hend, if_neg hslash, if_pos rfl,
      readTag_name hletters, readTag, if_pos rfl]
    rfl

/-- An attribute whose value holds no double quote is read as it was written. -/
theorem readTag_assigned (hvalue : '"' ∉ value) :
    readTag (.gap true) (Svg.assigned name value ++ rest)
      = (readTag (.gap false) rest).add name.toList value := by
  rw [readTag_beginning hname, readTag_value hvalue, List.nil_append]

/-- The value is read as far as the first double quote in it. -/
theorem exists_readTag_assigned :
    ∃ tag : Tag, readTag (.gap true) (Svg.assigned name value ++ rest)
      = tag.add name.toList (value.takeWhile (· ≠ '"')) := by
  obtain ⟨tag, htag⟩ := exists_readTag_value value name.toList [] rest
  exact ⟨tag, (readTag_beginning hname value rest).trans htag⟩

end Attributes

/-! ### References -/

def digitsOf? (value? : Char → Option ℕ) (base : ℕ) (text : List Char) : Option ℕ :=
  if text.isEmpty then none
  else text.foldlM (fun n c => (value? c).map (n * base + ·)) 0

/-- The character with a number, if there is one. -/
def charOf? (n : ℕ) : Option Char := if n.isValidChar then some (Char.ofNat n) else none

/-- The character that a reference stands for. -/
def reference? : List Char → Option Char
  | '#' :: 'x' :: text => digitsOf? Json.hexValue? 16 text >>= charOf?
  | '#' :: text => digitsOf? (fun c => (Digit.ofChar? c).map Fin.val) 10 text >>= charOf?
  | text =>
    if text = "amp".toList then some '&'
    else if text = "lt".toList then some '<'
    else if text = "gt".toList then some '>'
    else if text = "quot".toList then some '"'
    else if text = "apos".toList then some '\x27'
    else none

/-- A text with its references undone; `pending` is what has been read of one. -/
def resolveFrom? : Option (List Char) → List Char → Option (List Char)
  | none, [] => some []
  | some _, [] => none
  | none, c :: text =>
    if c = '&' then resolveFrom? (some []) text else (resolveFrom? none text).map (c :: ·)
  | some pending, c :: text =>
    if c = ';' then do return (← reference? pending) :: (← resolveFrom? none text)
    else resolveFrom? (some (pending ++ [c])) text

/-- A value with its references undone. -/
def resolve? (text : List Char) : Option (List Char) := resolveFrom? none text

theorem resolve?_of_not_mem {text : List Char} (h : '&' ∉ text) : resolve? text = some text := by
  unfold resolve?
  induction text with
  | nil => rfl
  | cons c text ih =>
    rw [List.mem_cons, not_or] at h
    rw [resolveFrom?, if_neg (Ne.symm h.1), ih h.2]
    rfl

/-- A reference is longer than the character that it stands for. -/
theorem length_resolveFrom?_le {text resolved : List Char} {pending : Option (List Char)}
    (h : resolveFrom? pending text = some resolved) :
    resolved.length ≤ text.length ∧
      (pending = none → '&' ∈ text → resolved.length < text.length) := by
  fun_induction resolveFrom? pending text generalizing resolved with
  | case1 =>
    obtain rfl := Option.some.inj h
    exact ⟨le_rfl, fun _ hmem => by contradiction⟩
  | case2 => contradiction
  | case3 text ih =>
    obtain ⟨hle, -⟩ := ih h
    rw [List.length_cons]
    exact ⟨by omega, fun _ _ => by omega⟩
  | case4 c text hc ih =>
    obtain ⟨rest, hrest, rfl⟩ := Option.map_eq_some_iff.1 h
    obtain ⟨hle, hlt⟩ := ih hrest
    simp only [List.length_cons]
    refine ⟨by omega, fun _ hmem => ?_⟩
    have hshort := hlt rfl ((List.mem_cons.1 hmem).resolve_left (Ne.symm hc))
    omega
  | case5 pending text ih =>
    obtain ⟨char, -, hread⟩ := Option.bind_eq_some_iff.1 h
    obtain ⟨rest, hrest, heq⟩ := Option.bind_eq_some_iff.1 hread
    obtain rfl := Option.some.inj heq
    obtain ⟨hle, -⟩ := ih hrest
    simp only [List.length_cons]
    exact ⟨by omega, fun hnone => by contradiction⟩
  | case6 pending c text hc ih =>
    obtain ⟨hle, -⟩ := ih h
    rw [List.length_cons]
    exact ⟨by omega, fun hnone => by contradiction⟩

theorem length_resolve?_le {text resolved : List Char} (h : resolve? text = some resolved) :
    resolved.length ≤ text.length := (length_resolveFrom?_le h).1

/-- A value with its references undone is the value just when it holds no ampersand. -/
theorem resolve?_eq_self_iff {text : List Char} : resolve? text = some text ↔ '&' ∉ text := by
  refine ⟨fun h hmem => ?_, resolve?_of_not_mem⟩
  exact absurd ((length_resolveFrom?_le h).2 rfl hmem) (lt_irrefl _)

end LineArt.Markup
