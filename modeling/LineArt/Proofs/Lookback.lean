import LineArt.Proofs.Alphabet

/-!
# Reading a drawing off its text

Which motions a pattern makes, and which of them draw, can be told from the text
alone: by the nearest earlier parenthesis, the nearest earlier square bracket and
the letters bound before.  Nothing is counted, so a mark that repeats the nearest
earlier one of its pair makes no difference.
-/

namespace LineArt

inductive InstructionKind where
  | setStrokeStyle
  | beginPath
  | moveTo
  | lineTo
  | stroke
  | fillRect
  | arc
deriving DecidableEq

def Instruction.kind {α : Type} : Instruction α → InstructionKind
  | .setStrokeStyle _ _ => .setStrokeStyle
  | .beginPath => .beginPath
  | .moveTo _ => .moveTo
  | .lineTo _ => .lineTo
  | .stroke => .stroke
  | .fillRect _ _ _ => .fillRect
  | .arc _ _ _ _ _ _ => .arc

/-! ### What the text says -/

def parentheses : List Char := ['(', ')']

def brackets : List Char := ['[', ']']

/-- The last of some marks in a text, looking back from its end. -/
def nearest? (marks before : List Char) : Option Char := before.reverse.find? (· ∈ marks)

/-- The kind of a single motion, by the text before it. -/
def motionKind (before : List Char) : InstructionKind :=
  if nearest? parentheses before ≠ some '(' ∧ nearest? brackets before ≠ some '[' then .lineTo
  else .moveTo

/-- The motions one character makes, by the text before it. -/
def kindsAt (before : List Char) (c : Char) : List InstructionKind :=
  if c ∈ ['.', '-', '|', '/', '@'] then [motionKind before]
  else if c.isUpper then if c.toLower ∈ before then [motionKind before] else []
  else if c = ']' then if nearest? brackets before = some '[' then [.moveTo, .lineTo] else []
  else []

def kindsAfter (before : List Char) : List Char → List InstructionKind
  | [] => []
  | c :: rest => kindsAt before c ++ kindsAfter (before ++ [c]) rest

/-- The motions of a pattern, in order. -/
def textKinds (pattern : String) : List InstructionKind := kindsAfter [] pattern.toList

@[simp] theorem nearest?_nil (marks : List Char) : nearest? marks [] = none := rfl

theorem nearest?_concat (marks before : List Char) (c : Char) :
    nearest? marks (before ++ [c]) = if c ∈ marks then some c else nearest? marks before := by
  rw [nearest?, List.reverse_append, List.reverse_singleton, List.singleton_append,
    List.find?_cons]
  by_cases h : c ∈ marks <;> simp [h, nearest?]

theorem nearest?_concat_of_mem {marks : List Char} (before : List Char) {c : Char}
    (h : c ∈ marks) : nearest? marks (before ++ [c]) = some c := by
  rw [nearest?_concat, if_pos h]

theorem nearest?_concat_of_not_mem {marks : List Char} (before : List Char) {c : Char}
    (h : c ∉ marks) : nearest? marks (before ++ [c]) = nearest? marks before := by
  rw [nearest?_concat, if_neg h]

theorem mem_of_nearest? {marks before : List Char} {c : Char} (h : nearest? marks before = some c) :
    c ∈ marks := by
  simpa using List.find?_some h

theorem eq_of_mem_parentheses {c : Char} (h : c ∈ parentheses) : c = '(' ∨ c = ')' := by
  simpa [parentheses] using h

theorem eq_of_mem_brackets {c : Char} (h : c ∈ brackets) : c = '[' ∨ c = ']' := by
  simpa [brackets] using h

theorem kindsAfter_append (before cs ds : List Char) :
    kindsAfter before (cs ++ ds) = kindsAfter before cs ++ kindsAfter (before ++ cs) ds := by
  induction cs generalizing before with
  | nil => simp [kindsAfter]
  | cons c cs ih => simp [kindsAfter, ih]

/-- Characters that neither move the pen nor close a region. -/
theorem kindsAt_eq_nil (before : List Char) {c : Char} (hmove : c ∉ ['.', '-', '|', '/', '@'])
    (hupper : ¬ c.isUpper) (hclose : c ≠ ']') : kindsAt before c = [] := by
  rw [kindsAt, if_neg hmove, if_neg hupper, if_neg hclose]

/-! ### Marks that change nothing -/

/-- Texts after which the same regions are open and the same letters bound. -/
structure SameOutlook (before before' : List Char) : Prop where
  parentheses : nearest? parentheses before = nearest? parentheses before'
  brackets : nearest? brackets before = nearest? brackets before'
  letters : ∀ name : Char, name.isLower → (name ∈ before ↔ name ∈ before')

namespace SameOutlook

variable {before before' : List Char}

theorem concat (h : SameOutlook before before') (c : Char) :
    SameOutlook (before ++ [c]) (before' ++ [c]) where
  parentheses := by rw [nearest?_concat, nearest?_concat, h.parentheses]
  brackets := by rw [nearest?_concat, nearest?_concat, h.brackets]
  letters name hname := by rw [List.mem_append, List.mem_append, h.letters name hname]

theorem kindsAt (h : SameOutlook before before') (c : Char) :
    LineArt.kindsAt before c = LineArt.kindsAt before' c := by
  have hmotion : motionKind before = motionKind before' := by
    rw [motionKind, motionKind, h.parentheses, h.brackets]
  unfold LineArt.kindsAt
  rw [hmotion, h.brackets]
  by_cases hupper : c.isUpper
  · simp only [h.letters c.toLower (isLower_toLower hupper)]
  · simp only [hupper, Bool.false_eq_true, if_false]

theorem kindsAfter (h : SameOutlook before before') (cs : List Char) :
    LineArt.kindsAfter before cs = LineArt.kindsAfter before' cs := by
  induction cs generalizing before before' with
  | nil => rfl
  | cons c cs ih => rw [LineArt.kindsAfter, LineArt.kindsAfter, h.kindsAt c, ih (h.concat c)]

end SameOutlook

/-- A mark that repeats the nearest earlier one of its pair makes no motion, and opens
or closes nothing. -/
theorem repeated_mark {before : List Char} {mark : Char}
    (h : nearest? parentheses before = some mark ∨ nearest? brackets before = some mark) :
    kindsAt before mark = [] ∧ SameOutlook (before ++ [mark]) before := by
  -- No mark is a letter, so it binds nothing.
  have hletters (hmark : ¬ mark.isLower) (name : Char) (hname : name.isLower) :
      name ∈ before ++ [mark] ↔ name ∈ before := by
    have hne : name ≠ mark := fun heq => hmark (heq ▸ hname)
    rw [List.mem_append, List.mem_singleton]
    exact or_iff_left hne
  rcases h with h | h
  · have hmark := eq_of_mem_parentheses (mem_of_nearest? h)
    have hother : mark ∉ brackets := by rcases hmark with rfl | rfl <;> decide
    refine ⟨?_, ?_, nearest?_concat_of_not_mem before hother, hletters ?_⟩
    · rcases hmark with rfl | rfl <;> rfl
    · rw [nearest?_concat_of_mem before (mem_of_nearest? h), h]
    · rcases hmark with rfl | rfl <;> decide
  · have hmark := eq_of_mem_brackets (mem_of_nearest? h)
    have hother : mark ∉ parentheses := by rcases hmark with rfl | rfl <;> decide
    refine ⟨?_, nearest?_concat_of_not_mem before hother, ?_, hletters ?_⟩
    · rcases hmark with rfl | rfl
      · rfl
      · have hclosed : nearest? brackets before ≠ some '[' := by
          rw [h]
          decide
        exact if_neg hclosed
    · rw [nearest?_concat_of_mem before (mem_of_nearest? h), h]
    · rcases hmark with rfl | rfl <;> decide

theorem textKinds_repeated_mark (u v : String) {mark : Char}
    (h : nearest? parentheses u.toList = some mark ∨ nearest? brackets u.toList = some mark) :
    textKinds (u.push mark ++ v) = textKinds (u ++ v) := by
  obtain ⟨hnone, hsame⟩ := repeated_mark h
  have hmark : kindsAfter u.toList [mark] = [] := by
    rw [kindsAfter, hnone]
    rfl
  simp only [textKinds, String.toList_append, String.toList_push, kindsAfter_append,
    List.nil_append, hmark, List.append_nil, hsame.kindsAfter]

end LineArt
