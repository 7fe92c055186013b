import LineArt.Proofs.Svg.Numbers

/-!
# Paths read back

The data of a path is split at its blanks into words, which come in pairs: a letter with a
number, and a number.  As no number holds a blank or begins with a letter of a command, the
pairs are the motions that were recorded, in their order and with the same coordinates.
-/

namespace LineArt.Svg

/-! ### Reading -/

/-- The words of a text between single blanks; an empty text has none. -/
def words (text : List Char) : List (List Char) :=
  if text.isEmpty then [] else text.splitOn ' '

def motion? (letter : Char) (p : Point Float32) : Option (Instruction Float32) :=
  match letter with
  | 'M' => some (.moveTo p)
  | 'L' => some (.lineTo p)
  | _ => none

/-- The motions that words write in pairs. -/
def readWords? : List (List Char) → Option (List (Instruction Float32))
  | [] => some []
  | (letter :: x) :: y :: rest => do
    let point := ⟨← floatOfText? (String.ofList x), ← floatOfText? (String.ofList y)⟩
    return (← motion? letter point) :: (← readWords? rest)
  | _ => none

def readPath? (data : List Char) : Option (List (Instruction Float32)) := readWords? (words data)

/-! ### Commands as words -/

/-- The two words of a command. -/
def commandWords (letter : Char) (p : Point Float32) : List (List Char) :=
  [letter :: floatText p.x, floatText p.y]

def motionWords : Instruction Float32 → List (List Char)
  | .moveTo p => commandWords 'M' p
  | .lineTo p => commandWords 'L' p
  | _ => []

/-- Words between blanks are words behind blanks, the first blank left out. -/
theorem intercalate_eq_tail (ws : List (List Char)) :
    List.intercalate [' '] ws = (ws.flatMap (' ' :: ·)).tail := by
  cases ws with
  | nil => rfl
  | cons w ws =>
    rw [List.flatMap_cons, List.cons_append, List.tail_cons]
    induction ws generalizing w with
    | nil => simp [List.intercalate]
    | cons v ws ih =>
      rw [List.intercalate_cons_cons, ih v, List.flatMap_cons, List.append_assoc]
      rfl

theorem flatMap_commands (is : List (Instruction Float32)) :
    (is.filterMap command?).flatMap (' ' :: ·) = (is.flatMap motionWords).flatMap (' ' :: ·) := by
  induction is with
  | nil => rfl
  | cons i is ih =>
    rw [List.flatMap_cons, List.flatMap_append, ← ih]
    cases i with
    | moveTo p => simp [command?, command, motionWords, commandWords]
    | lineTo p => simp [command?, command, motionWords, commandWords]
    | _ => rfl

theorem pathData_eq (r : Recording Float32) :
    pathData r = List.intercalate [' '] (r.instructions.flatMap motionWords) := by
  unfold pathData
  rw [intercalate_eq_tail, flatMap_commands, ← intercalate_eq_tail]

theorem readWords?_motionWords (is : List (Instruction Float32)) :
    readWords? (is.flatMap motionWords) = some (is.filter Instruction.isMotion) := by
  induction is with
  | nil => rfl
  | cons i is ih =>
    rw [List.flatMap_cons]
    cases i with
    | moveTo p =>
      simp [motionWords, commandWords, readWords?, floatOfText?_floatText, motion?, ih]
      rfl
    | lineTo p =>
      simp [motionWords, commandWords, readWords?, floatOfText?_floatText, motion?, ih]
      rfl
    | _ => exact ih

/-! ### Splitting -/

theorem intercalate_eq_nil_iff {ws : List (List Char)} (h : ∀ w ∈ ws.head?, w ≠ []) :
    List.intercalate [' '] ws = [] ↔ ws = [] := by
  rw [intercalate_eq_tail]
  cases ws with
  | nil => simp
  | cons w ws =>
    have hw := h w rfl
    simp [hw]

theorem motionWords_eq_nil_iff {i : Instruction Float32} :
    motionWords i = [] ↔ ¬ i.isMotion = true := by
  cases i <;> simp [motionWords, commandWords, Instruction.isMotion, Instruction.target?]

theorem flatMap_motionWords_eq_nil_iff {is : List (Instruction Float32)} :
    is.flatMap motionWords = [] ↔ is.filter Instruction.isMotion = [] := by
  rw [List.flatMap_eq_nil_iff, List.filter_eq_nil_iff]
  exact forall₂_congr fun i _ => motionWords_eq_nil_iff

/-- The first word begins with the letter of its command. -/
theorem ne_nil_of_mem_head? (is : List (Instruction Float32)) :
    ∀ w ∈ (is.flatMap motionWords).head?, w ≠ [] := by
  induction is with
  | nil => intro w hw; contradiction
  | cons i is ih =>
    rw [List.flatMap_cons]
    cases i <;> simp_all [motionWords, commandWords]

theorem blank_not_mem_motionWords (i : Instruction Float32) : ∀ w ∈ motionWords i, ' ' ∉ w := by
  have hblank : ∀ x, ' ' ∉ floatText x :=
    fun x hmem => absurd (isNumberChar_floatText x ' ' hmem) (by decide)
  cases i <;> simp [motionWords, commandWords, hblank]

theorem pathData_eq_nil_iff (r : Recording Float32) : pathData r = [] ↔ r.path = [] := by
  rw [pathData_eq, intercalate_eq_nil_iff (ne_nil_of_mem_head? _), flatMap_motionWords_eq_nil_iff]
  rfl

theorem words_pathData (r : Recording Float32) :
    words (pathData r) = r.instructions.flatMap motionWords := by
  have hblank : ∀ w ∈ r.instructions.flatMap motionWords, ' ' ∉ w := by
    intro w hw
    obtain ⟨i, -, hw⟩ := List.mem_flatMap.1 hw
    exact blank_not_mem_motionWords i w hw
  have hnil := intercalate_eq_nil_iff (ne_nil_of_mem_head? r.instructions)
  unfold words
  rw [pathData_eq]
  split
  · rename_i hempty
    exact (hnil.1 (List.isEmpty_iff.1 hempty)).symm
  · rename_i hempty
    exact List.splitOn_intercalate ' ' hblank fun h => hempty (List.isEmpty_iff.2 (hnil.2 h))

/-- The data of a path is read as the motions that were recorded. -/
theorem readPath?_pathData (r : Recording Float32) : readPath? (pathData r) = some r.path := by
  unfold readPath?
  rw [words_pathData, readWords?_motionWords]
  rfl

/-! ### The characters of a path -/

/-- The characters that the data of a path may hold. -/
def IsPathChar (c : Char) : Prop := IsNumberChar c ∨ c ∈ [' ', 'M', 'L']

instance (c : Char) : Decidable (IsPathChar c) := inferInstanceAs (Decidable (_ ∨ _))

theorem isPathChar_motionWords (i : Instruction Float32) :
    ∀ w ∈ motionWords i, ∀ c ∈ w, IsPathChar c := by
  have hnumber : ∀ x, ∀ c ∈ floatText x, IsPathChar c :=
    fun x c hc => .inl (isNumberChar_floatText x c hc)
  have hmove : IsPathChar 'M' := by decide
  have hline : IsPathChar 'L' := by decide
  cases i with
  | moveTo p => simpa [motionWords, commandWords, hmove] using ⟨hnumber p.x, hnumber p.y⟩
  | lineTo p => simpa [motionWords, commandWords, hline] using ⟨hnumber p.x, hnumber p.y⟩
  | _ => exact List.forall_mem_nil _

theorem isPathChar_pathData (r : Recording Float32) : ∀ c ∈ pathData r, IsPathChar c := by
  intro c hc
  rw [pathData_eq, intercalate_eq_tail] at hc
  obtain ⟨w, hw, hc⟩ := List.mem_flatMap.1 (List.mem_of_mem_tail hc)
  obtain ⟨i, -, hw⟩ := List.mem_flatMap.1 hw
  rcases List.mem_cons.1 hc with rfl | hc
  · decide
  · exact isPathChar_motionWords i w hw c hc

end LineArt.Svg
