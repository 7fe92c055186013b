import Mathlib.Data.List.TakeWhile
import LineArt.Proofs.Outcomes

/-!
# Typed patterns

Patterns share their alphabet with the syntax of options.  While its pattern is still to
come, a command keeps a few words for itself: the separator, the requests for help and the
names of its own options.  Any other word without an equals sign is taken as the pattern.
Behind the separator nothing is kept, so every pattern can be typed there.
-/

namespace LineArt.CommandLine

/-- The words without a value that a command does not take as its pattern. -/
@[mk_iff]
inductive Reserved (verb : Verb) : List Char → Prop where
  | separator : Reserved verb ['-', '-']
  | help : Reserved verb ('-' :: '-' :: "help".toList)
  /-- One hyphen and one or more letters of help. -/
  | cluster (n : ℕ) : Reserved verb ('-' :: List.replicate (n + 1) 'h')
  | option {flag : Flag} (h : flag ∈ verb.flags) : Reserved verb ('-' :: '-' :: flag.name.toList)

section

variable (verb : Verb)

theorem reserved_long_iff {name : List Char} (h : name ≠ []) :
    Reserved verb ('-' :: '-' :: name) ↔
      name = "help".toList ∨ ∃ flag ∈ verb.flags, flag.name.toList = name := by
  rw [reserved_iff]
  simp [h, List.replicate_succ, eq_comm]

theorem reserved_short_iff {letters : List Char} (h : ∀ name, letters ≠ '-' :: name) :
    Reserved verb ('-' :: letters) ↔ ∃ n, letters = List.replicate (n + 1) 'h' := by
  rw [reserved_iff]
  simp [h]

variable {verb}

theorem Reserved.eq_cons {word : List Char} (h : Reserved verb word) :
    ∃ rest, word = '-' :: rest := by
  cases h <;> exact ⟨_, rfl⟩

end

/-! ### Which words are kept -/

theorem splitOption_of_not_mem {text : List Char} (h : '=' ∉ text) :
    splitOption text = (text, none) := by
  have hdrop : text.dropWhile (· ≠ '=') = [] := by
    rw [List.dropWhile_eq_nil_iff]
    intro c hc
    exact decide_eq_true (ne_of_mem_of_not_mem hc h)
  unfold splitOption
  rw [hdrop]

theorem classifyLong_eq_plain_iff (verb : Verb) {text : List Char} (h : '=' ∉ text) :
    classifyLong verb true text = .plain ↔
      (∀ flag ∈ verb.flags, flag.name.toList ≠ text) ∧ text ≠ "help".toList := by
  unfold classifyLong
  rw [splitOption_of_not_mem h]
  dsimp only
  split
  · rename_i flag hflag
    have hname : flag.name.toList = text := by simpa using List.find?_some hflag
    have hmem := List.mem_of_find?_eq_some hflag
    exact ⟨fun hplain => by contradiction, fun hnone => absurd hname (hnone.1 flag hmem)⟩
  · rename_i hnone
    have hnames : ∀ flag ∈ verb.flags, flag.name.toList ≠ text := by
      simpa using hnone
    split
    · rename_i hhelp
      exact ⟨fun hplain => by contradiction, fun hneither => absurd hhelp hneither.2⟩
    · rename_i hhelp
      exact ⟨fun _ => ⟨hnames, hhelp⟩, fun _ => rfl⟩

theorem classifyShort_eq_plain_iff {letters : List Char} (h : letters ≠ []) :
    classifyShort true letters = .plain ↔ ∀ n, letters ≠ List.replicate (n + 1) 'h' := by
  unfold classifyShort
  rw [Bool.true_and]
  cases hany : letters.any (· ≠ 'h') with
  | true =>
    obtain ⟨c, hc, hne⟩ := List.any_eq_true.1 hany
    refine ⟨fun _ n hn => ?_, fun _ => rfl⟩
    subst hn
    exact of_decide_eq_true hne (List.eq_of_mem_replicate hc)
  | false =>
    have hall : ∀ c ∈ letters, c = 'h' := by simpa using hany
    have hlength : letters.length - 1 + 1 = letters.length := by
      have hpos : 0 < letters.length := List.length_pos_of_ne_nil h
      omega
    have hcluster : letters = List.replicate (letters.length - 1 + 1) 'h' := by
      rw [hlength]
      exact List.eq_replicate_of_mem hall
    have hhelp : letters.head? = some 'h' := by
      rw [hcluster]
      rfl
    refine ⟨fun hplain => ?_, fun hnot => absurd hcluster (hnot _)⟩
    simp [hhelp] at hplain

/-- A word without an equals sign is taken as the pattern that is still to come unless the
command keeps it for itself. -/
theorem classify_eq_plain_iff (verb : Verb) {word : String} (h : '=' ∉ word.toList) :
    classify verb true word = .plain ↔ ¬ Reserved verb word.toList := by
  unfold classify
  generalize word.toList = text at h ⊢
  -- The cases are those of the classification: two hyphens, one hyphen, none.
  split
  · exact ⟨fun hplain => by contradiction, fun hnot => absurd .separator hnot⟩
  · rename_i name hname
    rw [classifyLong_eq_plain_iff verb fun hmem => h (by simp [hmem]), reserved_long_iff verb hname]
    simp [and_comm, imp_not_comm]
  · simp [reserved_iff]
  · rename_i letters _ hlong hletters
    rw [classifyShort_eq_plain_iff hletters, reserved_short_iff verb hlong]
    simp
  · rename_i hnone
    exact ⟨fun _ hreserved => hreserved.eq_cons.elim hnone, fun _ => rfl⟩

/-- What the words that are kept ask for. -/
theorem classify_of_reserved {verb : Verb} {word : String} (h : Reserved verb word.toList) :
    classify verb true word = .separator ∨ classify verb true word = .help ∨
      ∃ flag ∈ verb.flags, classify verb true word = .option flag none := by
  unfold classify
  generalize word.toList = text at h ⊢
  cases h with
  | separator => exact .inl rfl
  | help => exact .inr (.inl (by cases verb <;> rfl))
  | cluster n =>
    have hshort : classifyShort true (List.replicate (n + 1) 'h') = .help := by
      simp [classifyShort, List.replicate_succ]
    exact .inr (.inl hshort)
  | @option flag hflag =>
    have hlong : ∀ flag ∈ verb.flags,
        classifyLong verb true flag.name.toList = .option flag none := by
      cases verb <;> decide
    refine .inr (.inr ⟨flag, hflag, ?_⟩)
    rw [← hlong flag hflag]
    cases flag <;> rfl

/-! ### What is read -/

/-- The command line that changes a text by nothing, the text typed at once. -/
def transforming (pattern : String) : List String :=
  ["transform", pattern, "--transform", "identity"]

/-- The command line that measures a pattern from the origin, the pattern typed at once. -/
def measuring (pattern : String) : List String :=
  ["measure", pattern, "--x", "0", "--y", "0"]

/-- As `transforming`, with the pattern behind the separator. -/
def transformingLast (pattern : String) : List String :=
  ["transform", "--transform", "identity", "--", pattern]

/-- As `measuring`, with the pattern behind the separator. -/
def measuringLast (pattern : String) : List String :=
  ["measure", "--x", "0", "--y", "0", "--", pattern]

/-- Under the standard settings, from the origin. -/
def originJob (pattern : String) : Job where
  pattern
  symmetries := []
  start := .ofPoint Point.origin
  configPath := none
  overrides := ⟨none, none, none, none, none⟩

section

variable {pattern : String}

theorem readArguments_word {verb : Verb} (hsign : '=' ∉ pattern.toList)
    (h : ¬ Reserved verb pattern.toList) (rest : List String) :
    readArguments verb {} (pattern :: rest)
      = readArguments verb { pattern := some pattern } rest := by
  have hplain := (classify_eq_plain_iff verb hsign).2 h
  rw [readArguments]
  simp only [Option.isNone_none, hplain]
  rfl

theorem readCommandLine_transforming (hsign : '=' ∉ pattern.toList)
    (h : ¬ Reserved .transform pattern.toList) :
    readCommandLine (transforming pattern) = .ok (.transform [.identity] pattern) := by
  show readArguments .transform {} (pattern :: _) >>= _ = _
  rw [readArguments_word hsign h]
  rfl

theorem readCommandLine_measuring (hsign : '=' ∉ pattern.toList)
    (h : ¬ Reserved .measure pattern.toList) :
    readCommandLine (measuring pattern) = .ok (.measure (originJob pattern)) := by
  show readArguments .measure {} (pattern :: _) >>= _ = _
  rw [readArguments_word hsign h]
  rfl

/-- A kept word is refused as the pattern if an option and its value come behind it. -/
theorem readArguments_reserved {verb : Verb} (h : Reserved verb pattern.toList)
    (name value : String) (rest : List String) (hname : classify verb true name ≠ .plain)
    (hnumber : floatOfText? name = none) :
    ∃ refusal, readArguments verb {} (pattern :: name :: value :: rest) = .error refusal := by
  rw [readArguments]
  rcases classify_of_reserved h with hclass | hclass | ⟨flag, -, hclass⟩
  · simp only [Option.isNone_none, hclass]
    exact ⟨.usage, rfl⟩
  · simp only [Option.isNone_none, hclass]
    exact ⟨.help, rfl⟩
  · simp only [Option.isNone_none, hclass, hname, decide_false, Bool.or_false]
    -- Only the options of the start take a word with hyphens, and they need a number.
    cases flag with
    | x =>
      simp only [Flag.takesAny, Given.give, once, hnumber]
      exact ⟨.usage, rfl⟩
    | y =>
      simp only [Flag.takesAny, Given.give, once, hnumber]
      exact ⟨.usage, rfl⟩
    | _ => exact ⟨.usage, rfl⟩

theorem readCommandLine_transforming_reserved (h : Reserved .transform pattern.toList) :
    ∃ refusal, readCommandLine (transforming pattern) = .error refusal := by
  obtain ⟨refusal, hrefused⟩ := readArguments_reserved h "--transform" "identity" [] (by decide)
    (by rfl)
  show ∃ refusal, readArguments .transform {} (pattern :: _) >>= _ = _
  rw [hrefused]
  exact ⟨refusal, rfl⟩

theorem readCommandLine_measuring_reserved (h : Reserved .measure pattern.toList) :
    ∃ refusal, readCommandLine (measuring pattern) = .error refusal := by
  obtain ⟨refusal, hrefused⟩ := readArguments_reserved h "--x" "0" ["--y", "0"] (by decide)
    (by rfl)
  show ∃ refusal, readArguments .measure {} (pattern :: _) >>= _ = _
  rw [hrefused]
  exact ⟨refusal, rfl⟩

/-! ### What is printed -/

/-- The outcome of a command that ends well with a text. -/
def Outcome.printed (text : String) : Outcome := ⟨0, text ++ "\n", ""⟩

variable (words : Wording) (files : Files) {arguments : List String}

theorem outcome_transform_identity
    (hread : readCommandLine arguments = .ok (.transform [.identity] pattern)) :
    outcome words files arguments = .printed pattern := by
  have hsame : Symmetry.applyAll [.identity] pattern = pattern := Symmetry.identity_apply pattern
  rw [outcome_of_read words files hread]
  simp only [Invocation.outcome, Invocation.output, hsame]
  rfl

theorem outcome_measure_origin
    (hread : readCommandLine arguments = .ok (.measure (originJob pattern)))
    {bounds : Bounds Float32}
    (hbounds : (measure .standard (.ofPoint Point.origin) pattern).outcome = .ok bounds) :
    outcome words files arguments = .printed (Json.Form.write bounds).prettyText := by
  have hconfig : (originJob pattern).fileConfig files = .ok .standard := rfl
  rw [outcome_of_read words files hread]
  exact outcome_measure_of_ok words files hconfig hbounds

theorem exists_outcome_of_refused
    (h : ∃ refusal, readCommandLine arguments = .error refusal) :
    ∃ refusal, readCommandLine arguments = .error refusal ∧
      outcome words files arguments = refusal.outcome words arguments := by
  obtain ⟨refusal, hrefused⟩ := h
  refine ⟨refusal, hrefused, ?_⟩
  unfold outcome
  rw [hrefused]

/-- A pattern of the alphabet can be typed at once unless it is a word that the command keeps
for itself: the change by nothing prints it as it is, and the measure from the origin prints
the box that `measure` gives.  A kept word is refused there, and nothing of it is run.  Behind
the separator every pattern can be typed. -/
theorem pattern_is_typed_unless_reserved (pattern : String)
    (h : ∀ c ∈ pattern.toList, InAlphabet c) :
    ∃ bounds : Bounds Float32,
      (measure .standard (.ofPoint Point.origin) pattern).outcome = .ok bounds ∧
      (¬ Reserved .transform pattern.toList →
        outcome words files (transforming pattern) = .printed pattern) ∧
      (¬ Reserved .measure pattern.toList →
        outcome words files (measuring pattern) = .printed (Json.Form.write bounds).prettyText) ∧
      (Reserved .transform pattern.toList →
        ∃ refusal, readCommandLine (transforming pattern) = .error refusal ∧
          outcome words files (transforming pattern)
            = refusal.outcome words (transforming pattern)) ∧
      (Reserved .measure pattern.toList →
        ∃ refusal, readCommandLine (measuring pattern) = .error refusal ∧
          outcome words files (measuring pattern) = refusal.outcome words (measuring pattern)) ∧
      outcome words files (transformingLast pattern) = .printed pattern ∧
      outcome words files (measuringLast pattern)
        = .printed (Json.Form.write bounds).prettyText := by
  have hsign : '=' ∉ pattern.toList := fun hmem => absurd (h '=' hmem) (by decide)
  have hvalid := (validate_eq_ok_iff_inAlphabet pattern).2 h
  obtain ⟨bounds, hbounds⟩ := Trace.exists_outcome_of_verdict
    ((verdict_measure .standard (.ofPoint Point.origin) pattern).trans hvalid)
  refine ⟨bounds, hbounds, ?_, ?_, ?_, ?_, ?_, ?_⟩
  · exact fun hfree =>
      outcome_transform_identity words files (readCommandLine_transforming hsign hfree)
  · exact fun hfree =>
      outcome_measure_origin words files (readCommandLine_measuring hsign hfree) hbounds
  · exact fun hkept =>
      exists_outcome_of_refused words files (readCommandLine_transforming_reserved hkept)
  · exact fun hkept =>
      exists_outcome_of_refused words files (readCommandLine_measuring_reserved hkept)
  · exact outcome_transform_identity words files rfl
  · exact outcome_measure_origin words files rfl hbounds

end

/-- Two hyphens in front do not make a word an option. -/
theorem hyphenated_pattern_is_typed :
    outcome .silent noFiles (transforming "--3.|") = .printed "--3.|" ∧
      ∃ bounds : Bounds Float32,
        (measure .standard (.ofPoint Point.origin) "--3.|").outcome = .ok bounds ∧
        outcome .silent noFiles (measuring "--3.|")
          = .printed (Json.Form.write bounds).prettyText := by
  have hsign : '=' ∉ "--3.|".toList := by decide
  obtain ⟨bounds, hbounds, htransformed, hmeasured, -⟩ :=
    pattern_is_typed_unless_reserved .silent noFiles "--3.|"
      ((validate_eq_ok_iff_inAlphabet "--3.|").1 rfl)
  exact ⟨htransformed ((classify_eq_plain_iff .transform hsign).1 (by decide)), bounds, hbounds,
    hmeasured ((classify_eq_plain_iff .measure hsign).1 (by decide))⟩

/-- Two hyphens alone are a valid pattern, but typed at once they end the options. -/
theorem separator_is_not_taken_as_pattern :
    (∀ c ∈ "--".toList, InAlphabet c) ∧
      outcome .silent noFiles (transforming "--") ≠ .printed "--" ∧
      outcome .silent noFiles (transforming "--")
        = Refusal.usage.outcome .silent (transforming "--") ∧
      outcome .silent noFiles (measuring "--")
        = Refusal.usage.outcome .silent (measuring "--") := by
  have hrefused : outcome .silent noFiles (transforming "--")
      = Refusal.usage.outcome .silent (transforming "--") := by rfl
  refine ⟨(validate_eq_ok_iff_inAlphabet "--").1 rfl, ?_, hrefused, by rfl⟩
  rw [hrefused]
  exact fun heq => absurd (congrArg Outcome.code heq) (by decide)

end LineArt.CommandLine
