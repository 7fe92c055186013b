import LineArt.Proofs.Json.Faithful
import LineArt.Proofs.TypedPatterns

/-!
# Options as they are typed

The arguments of a command, read without looking at any value: options with the text given to
them, attached or as the next argument, and plain texts.  A command line that is read gives
every option but the transform at most once, each with a text that is a value of the option,
and has one plain text, the pattern.
-/

namespace LineArt.CommandLine

/-! ### The grammar -/

inductive Part where
  | option (flag : Flag) (text : String)
  | pattern (text : String)

/-- The option as it is typed in front of its value. -/
def Flag.typed (flag : Flag) : String := "--" ++ flag.name

/-- The option with its value attached. -/
def Flag.attached (flag : Flag) (text : String) : String := flag.typed ++ ("=" ++ text)

/-- The arguments are these options and plain texts.  Behind two hyphens alone, all is plain. -/
inductive Spells (verb : Verb) : List String → List Part → Prop where
  | nil : Spells verb [] []
  | attached {flag : Flag} {arguments : List String} {parts : List Part} (text : String)
    (known : flag ∈ verb.flags) (rest : Spells verb arguments parts) :
    Spells verb (flag.attached text :: arguments) (.option flag text :: parts)
  | separate {flag : Flag} {arguments : List String} {parts : List Part} (text : String)
    (known : flag ∈ verb.flags) (rest : Spells verb arguments parts) :
    Spells verb (flag.typed :: text :: arguments) (.option flag text :: parts)
  | plain {text : String} {arguments : List String} {parts : List Part}
    (not_separator : text ≠ "--")
    (not_option : ∀ flag ∈ verb.flags, text ≠ flag.typed ∧ ∀ value, text ≠ flag.attached value)
    (rest : Spells verb arguments parts) : Spells verb (text :: arguments) (.pattern text :: parts)
  | separator (texts : List String) : Spells verb ("--" :: texts) (texts.map .pattern)

section Classes

variable {verb : Verb} {awaiting : Bool} {flag : Flag} {argument : String}

theorem splitOption_append {name value : List Char} (h : '=' ∉ name) :
    splitOption (name ++ '=' :: value) = (name, some (String.ofList value)) := by
  have hname : ∀ c ∈ name, decide (c ≠ '=') = true :=
    fun c hc => decide_eq_true (ne_of_mem_of_not_mem hc h)
  have hdrop : (name ++ '=' :: value).dropWhile (· ≠ '=') = '=' :: value := by
    rw [List.dropWhile_append_of_pos hname]
    rfl
  have htake : (name ++ '=' :: value).takeWhile (· ≠ '=') = name := by
    rw [List.takeWhile_append_of_pos hname]
    simp
  unfold splitOption
  rw [hdrop, htake]

theorem equals_not_mem_name (flag : Flag) : '=' ∉ flag.name.toList := by
  cases flag <;> decide

theorem name_ne_nil (flag : Flag) : flag.name.toList ≠ [] := by
  cases flag <;> decide

theorem toList_typed (flag : Flag) : flag.typed.toList = '-' :: '-' :: flag.name.toList := by
  simp [Flag.typed]

theorem toList_attached (flag : Flag) (text : String) :
    (flag.attached text).toList = '-' :: '-' :: (flag.name.toList ++ '=' :: text.toList) := by
  simp [Flag.attached, toList_typed]

theorem flag_name_injective : Function.Injective Flag.name := by
  intro e f
  cases e <;> cases f <;> simp [Flag.name]

theorem classify_long {text : List Char} (htext : text ≠ [])
    (h : argument.toList = '-' :: '-' :: text) :
    classify verb awaiting argument = classifyLong verb awaiting text := by
  unfold classify
  rw [h]
  cases text with
  | nil => contradiction
  | cons c cs => rfl

theorem find?_flag (h : flag ∈ verb.flags) :
    verb.flags.find? (fun f => f.name.toList = flag.name.toList) = some flag :=
  Json.find?_name flag_name_injective h

theorem classify_typed (h : flag ∈ verb.flags) :
    classify verb awaiting flag.typed = .option flag none := by
  have hsplit : splitOption flag.name.toList = (flag.name.toList, none) :=
    splitOption_of_not_mem (equals_not_mem_name flag)
  rw [classify_long (name_ne_nil flag) (toList_typed flag)]
  simp only [classifyLong, hsplit, find?_flag h]

theorem classify_attached (text : String) (h : flag ∈ verb.flags) :
    classify verb awaiting (flag.attached text) = .option flag (some text) := by
  have hsplit : splitOption (flag.name.toList ++ '=' :: text.toList)
      = (flag.name.toList, some (String.ofList text.toList)) :=
    splitOption_append (equals_not_mem_name flag)
  rw [classify_long (by simp) (toList_attached flag text)]
  simp only [classifyLong, hsplit, find?_flag h, String.ofList_toList]

theorem eq_of_splitOption {text name : List Char} {value : Option String}
    (h : splitOption text = (name, value)) :
    text = name ++ value.elim [] fun v => '=' :: v.toList := by
  unfold splitOption at h
  split at h
  · obtain ⟨rfl, rfl⟩ := Prod.mk.inj h
    simp
  · rename_i c cs hdrop
    obtain ⟨rfl, rfl⟩ := Prod.mk.inj h
    have hsign : c = '=' := by
      have hhead := List.head?_dropWhile_not (· ≠ '=') text
      rw [hdrop] at hhead
      simpa using hhead
    have hwhole := List.takeWhile_append_dropWhile (p := (· ≠ '=')) (l := text)
    rw [hdrop, hsign] at hwhole
    simpa using hwhole.symm

/-- Behind two hyphens stands an option of the command, or nothing that is one. -/
theorem classifyLong_cases (verb : Verb) (awaiting : Bool) (text : List Char) :
    (∃ flag ∈ verb.flags, ∃ value, splitOption text = (flag.name.toList, value) ∧
        classifyLong verb awaiting text = .option flag value) ∨
      classifyLong verb awaiting text ∈ [.plain, .help, .unknown] := by
  unfold classifyLong
  cases hsplit : splitOption text with
  | mk name value =>
    dsimp only
    split
    · rename_i flag hflag
      have hname : flag.name.toList = name := by simpa using List.find?_some hflag
      exact .inl ⟨flag, List.mem_of_find?_eq_some hflag, value, by rw [hname], rfl⟩
    · right
      unfold unnamed
      split
      · split <;> simp
      · split <;> simp

theorem classifyShort_mem (awaiting : Bool) (letters : List Char) :
    classifyShort awaiting letters ∈ [.plain, .help, .unknown] := by
  unfold classifyShort
  split
  · simp
  · split <;> simp

/-- Only the name of an option, alone or with a value attached, counts as that option. -/
theorem eq_of_classify_option {value : Option String}
    (h : classify verb awaiting argument = .option flag value) :
    flag ∈ verb.flags ∧ argument = value.elim flag.typed flag.attached := by
  unfold classify at h
  split at h
  · contradiction
  · rename_i text _ htext
    rcases classifyLong_cases verb awaiting text with ⟨found, hknown, attached, hsplit, hclass⟩ | hmem
    · obtain ⟨rfl, rfl⟩ := Argument.option.inj (hclass.symm.trans h)
      refine ⟨hknown, String.toList_inj.1 ?_⟩
      rw [htext, eq_of_splitOption hsplit]
      cases attached with
      | none => simp [toList_typed]
      | some v => simp [toList_attached]
    · simp [h] at hmem
  · contradiction
  · rename_i letters _ _ _ _
    have hmem := classifyShort_mem awaiting letters
    simp [h] at hmem
  · contradiction

theorem eq_of_classify_separator (h : classify verb awaiting argument = .separator) :
    argument = "--" := by
  unfold classify at h
  split at h
  · rename_i htext
    exact String.toList_inj.1 htext
  · rename_i text _ _
    rcases classifyLong_cases verb awaiting text with ⟨flag, -, value, -, hclass⟩ | hmem
    · rw [hclass] at h
      contradiction
    · simp [h] at hmem
  · contradiction
  · rename_i letters _ _ _ _
    have hmem := classifyShort_mem awaiting letters
    simp [h] at hmem
  · contradiction

theorem not_option_of_classify_plain (h : classify verb awaiting argument = .plain) :
    argument ≠ "--" ∧
      ∀ flag ∈ verb.flags, argument ≠ flag.typed ∧ ∀ value, argument ≠ flag.attached value := by
  refine ⟨?_, fun flag hflag => ⟨?_, fun value => ?_⟩⟩
  · rintro rfl
    contradiction
  · rintro rfl
    rw [classify_typed hflag] at h
    contradiction
  · rintro rfl
    rw [classify_attached value hflag] at h
    contradiction

end Classes

namespace Spells

variable {verb : Verb} {flag : Flag} {text : String} {arguments : List String} {parts : List Part}

theorem of_attached (known : flag ∈ verb.flags)
    (h : Spells verb (flag.attached text :: arguments) parts) :
    ∃ rest, parts = .option flag text :: rest ∧ Spells verb arguments rest := by
  have hclass : classify verb true (flag.attached text) = .option flag (some text) :=
    classify_attached text known
  -- The text of an option is not an index that `cases` can open; what it counts as tells the cases.
  generalize hhead : flag.attached text = head at h hclass
  cases h with
  | attached text' known' rest =>
    rw [classify_attached text' known'] at hclass
    obtain ⟨rfl, hvalue⟩ := Argument.option.inj hclass
    obtain rfl := Option.some.inj hvalue
    exact ⟨_, rfl, rest⟩
  | separate text' known' rest => simp [classify_typed known'] at hclass
  | plain not_separator not_option rest => exact absurd hhead.symm ((not_option flag known).2 text)
  | separator texts => contradiction

theorem of_typed (known : flag ∈ verb.flags)
    (h : Spells verb (flag.typed :: text :: arguments) parts) :
    ∃ rest, parts = .option flag text :: rest ∧ Spells verb arguments rest := by
  have hclass : classify verb true flag.typed = .option flag none := classify_typed known
  generalize hhead : flag.typed = head at h hclass
  cases h with
  | attached text' known' rest => simp [classify_attached text' known'] at hclass
  | separate text' known' rest =>
    rw [classify_typed known'] at hclass
    obtain ⟨rfl, -⟩ := Argument.option.inj hclass
    exact ⟨_, rfl, rest⟩
  | plain not_separator not_option rest => exact absurd hhead.symm (not_option flag known).1
  | separator texts => contradiction

theorem of_separator (h : Spells verb ("--" :: arguments) parts) :
    parts = arguments.map .pattern := by
  generalize hhead : "--" = head at h
  have hclass : classify verb true head = .separator := hhead ▸ rfl
  cases h with
  | attached text' known' rest => simp [classify_attached text' known'] at hclass
  | separate text' known' rest => simp [classify_typed known'] at hclass
  | plain not_separator not_option rest => exact absurd hhead.symm not_separator
  | separator texts => rfl

/-- Arguments are spelled in one way only. -/
theorem unique (h : Spells verb arguments parts) {other : List Part}
    (hother : Spells verb arguments other) : other = parts := by
  induction h generalizing other with
  | nil =>
    cases hother
    rfl
  | attached text known _ ih =>
    obtain ⟨rest, rfl, hrest⟩ := hother.of_attached known
    rw [ih hrest]
  | separate text known _ ih =>
    obtain ⟨rest, rfl, hrest⟩ := hother.of_typed known
    rw [ih hrest]
  | plain not_separator not_option _ ih =>
    cases hother with
    | attached text known rest => exact absurd rfl ((not_option _ known).2 text)
    | separate text known rest => exact absurd rfl (not_option _ known).1
    | plain _ _ rest => rw [ih rest]
    | separator texts => contradiction
  | separator texts => exact hother.of_separator

end Spells

/-! ### What is given -/

def Given.take (g : Given) : Part → Except Refusal Given
  | .option flag text => g.give flag text
  | .pattern text => g.givePattern text

variable {verb : Verb} {given read : Given} {arguments : List String}

theorem foldlM_of_readPlain (h : readPlain given arguments = .ok read) :
    (arguments.map Part.pattern).foldlM Given.take given = .ok read := by
  induction arguments generalizing given with
  | nil => exact h
  | cons argument rest ih =>
    obtain ⟨next, hnext, hrest⟩ := exists_ok_of_bind h
    rw [List.map_cons, List.foldlM_cons, Given.take, hnext]
    exact ih hrest

/-- Arguments that are read are spelled by parts, which give what was read. -/
theorem exists_spells (h : readArguments verb given arguments = .ok read) :
    ∃ parts, Spells verb arguments parts ∧ parts.foldlM Given.take given = .ok read := by
  fun_induction readArguments verb given arguments with
  | case1 given => exact ⟨[], .nil, h⟩
  | case2 given argument rest hclass =>
    rw [eq_of_classify_separator hclass]
    exact ⟨_, .separator rest, foldlM_of_readPlain h⟩
  | case3 given argument rest flag text hclass ih =>
    obtain ⟨next, hnext, hrest⟩ := exists_ok_of_bind h
    obtain ⟨parts, hparts, hfold⟩ := ih next hrest
    obtain ⟨hknown, hargument⟩ := eq_of_classify_option hclass
    rw [hargument]
    refine ⟨_, .attached text hknown hparts, ?_⟩
    rw [List.foldlM_cons, Given.take, hnext]
    exact hfold
  | case4 => contradiction
  | case5 given argument flag hclass text rest hvalue ih =>
    obtain ⟨next, hnext, hrest⟩ := exists_ok_of_bind h
    obtain ⟨parts, hparts, hfold⟩ := ih next hrest
    obtain ⟨hknown, hargument⟩ := eq_of_classify_option hclass
    rw [hargument]
    refine ⟨_, .separate text hknown hparts, ?_⟩
    rw [List.foldlM_cons, Given.take, hnext]
    exact hfold
  | case6 => contradiction
  | case7 => contradiction
  | case8 given argument rest hclass ih =>
    obtain ⟨next, hnext, hrest⟩ := exists_ok_of_bind h
    obtain ⟨parts, hparts, hfold⟩ := ih next hrest
    obtain ⟨hseparator, hoption⟩ := not_option_of_classify_plain hclass
    refine ⟨_, .plain hseparator hoption hparts, ?_⟩
    rw [List.foldlM_cons, Given.take, hnext]
    exact hfold
  | case9 => contradiction

/-! ### Values -/

/-- What an option takes as its value. -/
def Flag.Content : Flag → Type
  | .x | .y | .step | .canvasWidth | .canvasHeight | .width => Float32
  | .config | .color => String
  | .transform => Symmetry
  | .format => Format

def Flag.value? : (flag : Flag) → String → Option flag.Content
  | .x | .y | .step | .canvasWidth | .canvasHeight | .width => floatOfText?
  | .config => path?
  | .color => some
  | .transform => Symmetry.ofName?
  | .format => Format.ofName?

/-- The values that an option was given, in order; only the transform can have more than one. -/
def Given.values (g : Given) : (flag : Flag) → List flag.Content
  | .x => g.x.toList
  | .y => g.y.toList
  | .config => g.config.toList
  | .step => g.step.toList
  | .canvasWidth => g.canvasWidth.toList
  | .canvasHeight => g.canvasHeight.toList
  | .color => g.color.toList
  | .width => g.width.toList
  | .transform => g.symmetries
  | .format => g.format.toList

theorem of_once {β : Type} {before value after : Option β} (h : once before value = .ok after) :
    before = none ∧ ∃ b, value = some b ∧ after = some b := by
  unfold once at h
  split at h
  · rename_i b
    exact ⟨rfl, b, rfl, (Except.ok.inj h).symm⟩
  · contradiction

/-- An option adds its value to those it was given, and leaves the other options as they were. -/
theorem values_give {flag : Flag} {text : String} (h : given.give flag text = .ok read) :
    (∃ value, flag.value? text = some value ∧ read.values flag = given.values flag ++ [value]) ∧
      ∀ other ≠ flag, read.values other = given.values other := by
  cases flag with
  | transform =>
    simp only [Given.give, Given.giveTransform] at h
    split at h
    · rename_i symmetry hsymmetry
      obtain rfl := Except.ok.inj h
      refine ⟨⟨symmetry, hsymmetry, rfl⟩, fun other hother => ?_⟩
      cases other <;> first | rfl | contradiction
    · contradiction
  | _ =>
    obtain ⟨after, honce, h⟩ := exists_ok_of_bind h
    obtain ⟨hbefore, value, hvalue, rfl⟩ := of_once honce
    obtain rfl := Except.ok.inj h
    refine ⟨⟨value, hvalue, by simp only [Given.values, hbefore]; rfl⟩, fun other hother => ?_⟩
    cases other <;> first | rfl | contradiction

theorem pattern_give {flag : Flag} {text : String} (h : given.give flag text = .ok read) :
    read.pattern = given.pattern := by
  cases flag with
  | transform =>
    simp only [Given.give, Given.giveTransform] at h
    split at h
    · obtain rfl := Except.ok.inj h
      rfl
    · contradiction
  | _ =>
    obtain ⟨after, -, h⟩ := exists_ok_of_bind h
    obtain rfl := Except.ok.inj h
    rfl

theorem values_givePattern {text : String} (h : given.givePattern text = .ok read) (flag : Flag) :
    read.values flag = given.values flag := by
  obtain ⟨pattern, -, h⟩ := exists_ok_of_bind h
  obtain rfl := Except.ok.inj h
  cases flag <;> rfl

theorem toList_pattern_givePattern {text : String} (h : given.givePattern text = .ok read) :
    read.pattern.toList = given.pattern.toList ++ [text] := by
  obtain ⟨pattern, honce, h⟩ := exists_ok_of_bind h
  obtain ⟨hbefore, value, hvalue, rfl⟩ := of_once honce
  obtain rfl := Option.some.inj hvalue
  obtain rfl := Except.ok.inj h
  simp [hbefore]

def texts (flag : Flag) (parts : List Part) : List String :=
  parts.filterMap fun
    | .option other text => if other = flag then some text else none
    | .pattern _ => none

def plainTexts (parts : List Part) : List String :=
  parts.filterMap fun
    | .option _ _ => none
    | .pattern text => some text

theorem mem_texts {flag : Flag} {text : String} {parts : List Part} :
    text ∈ texts flag parts ↔ .option flag text ∈ parts := by
  unfold texts
  rw [List.mem_filterMap]
  constructor
  · rintro ⟨part, hpart, h⟩
    cases part with
    | pattern _ => contradiction
    | option other _ =>
      simp only [Option.ite_none_right_eq_some, Option.some.injEq] at h
      obtain ⟨rfl, rfl⟩ := h
      exact hpart
  · exact fun h => ⟨_, h, if_pos rfl⟩

/-- The values an option ends up with are those of its texts. -/
theorem values_of_foldlM {parts : List Part} (h : parts.foldlM Given.take given = .ok read)
    (flag : Flag) :
    (read.values flag).map some
      = (given.values flag).map some ++ (texts flag parts).map flag.value? := by
  induction parts generalizing given with
  | nil =>
    obtain rfl := Except.ok.inj h
    simp [texts]
  | cons part parts ih =>
    rw [List.foldlM_cons] at h
    obtain ⟨next, hnext, hrest⟩ := exists_ok_of_bind h
    rw [ih hrest]
    cases part with
    | pattern text =>
      rw [values_givePattern hnext]
      rfl
    | option other text =>
      obtain ⟨⟨value, hvalue, hsame⟩, hothers⟩ := values_give hnext
      by_cases hflag : other = flag
      · subst hflag
        simp [texts, hsame, hvalue]
      · rw [hothers flag (Ne.symm hflag)]
        simp [texts, hflag]

theorem values_of_parts {parts : List Part} (h : parts.foldlM Given.take {} = .ok read)
    (flag : Flag) : (read.values flag).map some = (texts flag parts).map flag.value? := by
  have hnone : ({} : Given).values flag = [] := by
    cases flag <;> rfl
  have hvalues := values_of_foldlM h flag
  rwa [hnone] at hvalues

theorem pattern_of_foldlM {parts : List Part} (h : parts.foldlM Given.take given = .ok read) :
    read.pattern.toList = given.pattern.toList ++ plainTexts parts := by
  induction parts generalizing given with
  | nil =>
    obtain rfl := Except.ok.inj h
    simp [plainTexts]
  | cons part parts ih =>
    rw [List.foldlM_cons] at h
    obtain ⟨next, hnext, hrest⟩ := exists_ok_of_bind h
    rw [ih hrest]
    cases part with
    | pattern text =>
      rw [toList_pattern_givePattern hnext]
      simp [plainTexts]
    | option flag text =>
      rw [pattern_give hnext]
      rfl

end LineArt.CommandLine
