import LineArt.Proofs.Messages
import LineArt.Proofs.Requests

/-!
# Exit codes

A command that runs a pattern ends well just when its configuration can be read and the
pattern is valid as typed, whatever transforms are applied to it first.  Otherwise it prints
nothing and reports the fault of the configuration or, failing that, the first bad character
of the typed pattern with its place there.
-/

namespace LineArt.CommandLine

/-! ### Reports -/

def openReport (path reason : String) : String :=
  "Error: open config '" ++ path ++ "'" ++ "\n\nCaused by:\n    " ++ reason ++ "\n"

def parseReport (path complaint : String) : String :=
  "Error: parse config '" ++ path ++ "'" ++ "\n\nCaused by:\n    " ++ complaint ++ "\n"

/-- The report on a text, as it was run, that holds an invalid token. -/
def patternReport (verb : Verb) (text : String) (fault : InvalidToken) : String :=
  "Error: " ++ verb.name ++ " pattern '" ++ text ++ "'" ++ "\n\nCaused by:\n    "
    ++ ("invalid pattern token " ++ Text.quoted fault.token ++ " at position "
      ++ Nat.repr fault.index) ++ "\n"

/-- A report names one character and one place. -/
theorem patternReport_injective (verb : Verb) (text : String) :
    Function.Injective (patternReport verb text) := by
  intro fault fault' h
  have hmessage : fault.message = fault'.message :=
    (String.append_right_inj _).1 ((String.append_left_inj "\n").1 h)
  exact InvalidToken.message_injective hmessage

section

variable (words : Wording) (path reason text : String) (verb : Verb) (fault : InvalidToken)

theorem message_openConfig : (Failure.openConfig path reason).message words
    = openReport path reason := rfl

theorem message_parseConfig : (Failure.parseConfig path text).message words
    = parseReport path (words.unreadable text) := rfl

theorem message_pattern : (Failure.pattern verb text fault).message words
    = patternReport verb text fault := rfl

end

/-! ### Judgement -/

/-- An outcome that tells the validity of the typed pattern of a job. -/
structure Job.JudgedBy (job : Job) (verb : Verb) (words : Wording) (files : Files)
    (outcome : Outcome) : Prop where
  ends_well : outcome.code = 0 ↔ job.Configured files ∧ validate job.pattern = .ok ()
  prints_nothing : ¬ (job.Configured files ∧ validate job.pattern = .ok ()) →
    outcome.code = 1 ∧ outcome.stdout = ""
  unopened : ∀ path reason, job.configPath = some path → files path = .error reason →
    outcome.stderr = openReport path reason
  unparsed : ∀ path text fault, job.configPath = some path → files path = .ok text →
    (Json.decode text : Except Json.Fault (Config Float32)) = .error fault →
    outcome.stderr = parseReport path (words.unreadable text)
  invalid : ∀ fault, job.Configured files → validate job.pattern = .error fault →
    ∀ named, outcome.stderr
        = patternReport verb (Symmetry.applyAll job.symmetries job.pattern) named ↔ named = fault

variable {verb : Verb} {invocation : Invocation} {job : Job} {arguments : List String}

theorem judgedBy_outcome (words : Wording) (files : Files)
    (hjob : invocation.job? = some (verb, job)) :
    job.JudgedBy verb words files (invocation.outcome words files) := by
  have hfailed : ∀ failure, job.failure? files verb = some failure →
      invocation.outcome words files = ⟨1, "", failure.message words⟩ :=
    fun failure => outcome_of_failure words files hjob
  constructor
  · rw [← job.failure?_eq_none_iff files verb]
    exact ⟨failure?_of_code words files hjob, code_of_none words files hjob⟩
  · rw [← job.failure?_eq_none_iff files verb]
    intro hsome
    obtain ⟨failure, hfailure⟩ := Option.ne_none_iff_exists'.mp hsome
    rw [hfailed failure hfailure]
    exact ⟨rfl, rfl⟩
  · intro path reason hpath hfile
    rw [hfailed _ (job.failure?_of_openConfig files verb hpath hfile), message_openConfig]
  · intro path text fault hpath hfile htext
    rw [hfailed _ (job.failure?_of_parseConfig files verb hpath hfile htext), message_parseConfig]
  · intro fault hconfigured hvalidate named
    rw [hfailed _ (job.failure?_of_pattern files verb hconfigured hvalidate), message_pattern]
    exact ⟨fun h => (patternReport_injective _ _ h).symm, fun h => h ▸ rfl⟩

/-- A command line that is to draw or to measure asks by its options and its one plain text for
a job, and ends with code 0 just when the configuration file, if there is one, opens and parses
and the pattern is valid as typed.  Otherwise the code is 1 and nothing is printed to the
standard output; a fault of the configuration is reported first, and a fault of the pattern is
its first bad character with its place, as typed. -/
theorem exit_code_tells_validity (words : Wording) (files : Files)
    (hread : readCommandLine arguments = .ok invocation)
    (hjob : invocation.job? = some (verb, job)) :
    ∃ rest parts, arguments = verb.name :: rest ∧
      Spells verb rest parts ∧ (∀ other, Spells verb rest other → other = parts) ∧
      invocation.AskedBy parts ∧ job.JudgedBy verb words files (outcome words files arguments) := by
  obtain ⟨rest, parts, _, hnamed, hspelled, -, -, hasked⟩ := exists_parts hread hjob
  refine ⟨rest, parts, hnamed, hspelled, fun _ => hspelled.unique, hasked, ?_⟩
  rw [outcome_of_read words files hread]
  exact judgedBy_outcome words files hjob

/-- The arguments of a drawing, turned a quarter, of a text whose second character is bad. -/
def badDrawing : List String :=
  ["draw", "5?-", "--transform", "rotate90", "--config=c.json"]

/-- The job that those arguments ask for. -/
def badJob : Job where
  pattern := "5?-"
  symmetries := [.rotate90]
  start := ⟨.centered, .centered⟩
  configPath := some "c.json"
  overrides := ⟨none, none, none, none, none⟩

/-- A configuration file with no settings. -/
def emptyConfig : Files := fun path =>
  if path = "c.json" then .ok "\x7b\x7d" else .error "No such file or directory (os error 2)"

/-- The report is on the pattern if the configuration is there, and on that if it is not. -/
theorem bad_drawing_exits_with_failure :
    (∃ parts, Spells .draw badDrawing.tail parts ∧ (Invocation.draw badJob .json).AskedBy parts) ∧
    outcome .silent emptyConfig badDrawing = ⟨1, "",
      "Error: draw pattern '5?/'\n\nCaused by:\n    invalid pattern token '?' at position 1\n"⟩ ∧
    outcome .silent noFiles badDrawing = ⟨1, "",
      "Error: open config 'c.json'\n\nCaused by:\n    No such file or directory (os error 2)\n"⟩ := by
  have hread : readCommandLine badDrawing = .ok (.draw badJob .json) := by rfl
  have hbad : validate badJob.pattern = .error ⟨'?', 1⟩ := by rfl
  have hinvalid : validate badJob.pattern ≠ .ok () := by
    rw [hbad]
    simp
  have hconfigured : badJob.Configured emptyConfig := by
    rintro path hpath
    obtain rfl := Option.some.inj hpath
    exact ⟨"\x7b\x7d", .standard, rfl, by decide +kernel⟩
  have hwhole (o : Outcome) (report : String) (hprinted : o.code = 1 ∧ o.stdout = "")
      (hreport : o.stderr = report) : o = ⟨1, "", report⟩ := by
    rw [← hprinted.1, ← hprinted.2, ← hreport]
  obtain ⟨rest, parts, hnamed, hspelled, -, hasked, hjudged⟩ :=
    exit_code_tells_validity .silent emptyConfig hread rfl
  obtain ⟨-, -, -, -, -, -, hunopened⟩ := exit_code_tells_validity .silent noFiles hread rfl
  obtain ⟨-, rfl⟩ := List.cons.inj hnamed
  refine ⟨⟨parts, hspelled, hasked⟩, hwhole _ _ (hjudged.prints_nothing fun h => hinvalid h.2) ?_,
    hwhole _ _ (hunopened.prints_nothing fun h => hinvalid h.2) ?_⟩
  · rw [(hjudged.invalid _ hconfigured hbad _).2 rfl]
    decide +kernel
  · rw [hunopened.unopened _ _ rfl rfl]
    decide +kernel

end LineArt.CommandLine
