import LineArt.Proofs.Forms.Cursor
import LineArt.Proofs.Json.Gathering
import LineArt.Proofs.Requests

/-!
# Which setting counts

The settings of a run come from three places: a flag, else the field of the configuration
file, else the standard.  The flag of the step decides both components of the step, each flag
of the canvas one axis.  What is printed is what the library gives under these settings on
the transformed pattern.
-/

namespace LineArt

open Json

/-! ### The configuration file -/

/-- A text is an object that holds fields with their contents, in any order and each once,
among others that the record does not know. -/
def Json.Record.HeldBy {F : Type} (R : Record F) (text : String) (entries : List R.Entry) : Prop :=
  ∃ members rest, Node.read text.toList = (.object members .closed, some rest) ∧ Blanks rest ∧
    R.Holds (depthLimit - 1) members entries ∧ (entries.map Sigma.fst).Nodup

namespace Config

/-- Every setting has the content it is given, or else its standard one. -/
structure Completes (config : Config Float32) (entries : List record.Entry) : Prop where
  given : ∀ f a, ⟨f, a⟩ ∈ entries → config.content f = a
  omitted : ∀ f ∉ entries.map Sigma.fst,
    config.content f = (Config.standard (α := Float32)).content f

theorem content_ofGathered (g : record.Gathered) (f : Field) :
    (ofGathered g).content f = (g f).getD ((Config.standard (α := Float32)).content f) := by
  cases f <;> rfl

theorem completes_putAll {entries : List record.Entry} (hnodup : (entries.map Sigma.fst).Nodup) :
    (ofGathered (record.none.putAll entries)).Completes entries where
  given f a h := by
    rw [content_ofGathered, Record.Gathered.putAll_of_mem hnodup h]
    rfl
  omitted f h := by
    rw [content_ofGathered, Record.Gathered.putAll_of_not_mem h]
    rfl

/-- The settings that an object holds are read from it, the others are standard. -/
theorem exists_decode_of_heldBy {text : String} {entries : List record.Entry}
    (h : record.HeldBy text entries) :
    ∃ config : Config Float32, decode text = .ok config ∧ config.Completes entries := by
  obtain ⟨members, rest, hnode, hblank, hholds, hnodup⟩ := h
  refine ⟨_, ?_, completes_putAll hnodup⟩
  rw [decode_eq_read_of_blanks hnode hblank, presented.read_depthLimit,
    hholds.readMembers presented.name_injective hnodup]
  rfl

end Config

namespace CommandLine

/-! ### Options -/

/-- Settings that the options have put over those below. -/
structure Overridden (parts : List Part) (below config : Config Float32) : Prop where
  stepX : Decided parts .step id below.step.x config.step.x
  stepY : Decided parts .step id below.step.y config.step.y
  canvasX : Decided parts .canvasWidth id below.canvas.x config.canvas.x
  canvasY : Decided parts .canvasHeight id below.canvas.y config.canvas.y
  strokeColor : Decided parts .color id below.strokeColor config.strokeColor
  strokeWidth : Decided parts .width id below.strokeWidth config.strokeWidth

section Given

variable {read : Given} {parts : List Part}
  (hfold : parts.foldlM Given.take {} = .ok read)

include hfold

theorem overridden_apply (below : Config Float32) :
    Overridden parts below (read.overrides.apply below) where
  stepX := by
    have hstep : (read.overrides.apply below).step.x = (read.step.map id).getD below.step.x := by
      cases h : read.step <;> simp [Given.overrides, Overrides.apply, Point.splat, h]
    exact hstep ▸ decided_getD (values_of_parts hfold .step) _ _
  stepY := by
    have hstep : (read.overrides.apply below).step.y = (read.step.map id).getD below.step.y := by
      cases h : read.step <;> simp [Given.overrides, Overrides.apply, Point.splat, h]
    exact hstep ▸ decided_getD (values_of_parts hfold .step) _ _
  canvasX := decided_getD_id (values_of_parts hfold .canvasWidth) below.canvas.x
  canvasY := decided_getD_id (values_of_parts hfold .canvasHeight) below.canvas.y
  strokeColor := decided_getD_id (values_of_parts hfold .color) below.strokeColor
  strokeWidth := decided_getD_id (values_of_parts hfold .width) below.strokeWidth

end Given

/-! ### Runs -/

/-- What the library gives for a pattern that it runs, transformed, to the end. -/
inductive Invocation.Shows (config : Config Float32) : Invocation → String → Prop where
  | instructions {job : Job} {trace : Trace Float32 Unit}
    (run : LineArt.draw config job.start (Symmetry.applyAll job.symmetries job.pattern) = trace)
    (ended : trace.outcome = .ok ()) :
    Shows config (.draw job .json) (Value.array (trace.instructions.map Form.write)).prettyText
  | document {job : Job} {trace : Trace Float32 Unit}
    (run : LineArt.draw config job.start (Symmetry.applyAll job.symmetries job.pattern) = trace)
    (ended : trace.outcome = .ok ()) :
    Shows config (.draw job .svg) (String.ofList (Svg.document config ⟨trace.instructions⟩))
  | box {job : Job} {trace : Trace Float32 (Bounds Float32)} {bounds : Bounds Float32}
    (run : LineArt.measure config job.start (Symmetry.applyAll job.symmetries job.pattern) = trace)
    (ended : trace.outcome = .ok bounds) :
    Shows config (.measure job) (Form.write bounds).prettyText

/-- The configuration file, if one is asked for, is there and holds these fields. -/
def Job.Finds (job : Job) (files : Files) (entries : List Config.record.Entry) : Prop :=
  match job.configPath with
  | none => entries = []
  | some path => ∃ text, files path = .ok text ∧ Config.record.HeldBy text entries

section Running

variable {words : Wording} {verb : Verb} {job : Job} {invocation : Invocation} {files : Files}
  {entries : List Config.record.Entry} {arguments : List String}

theorem exists_fileConfig (h : job.Finds files entries) :
    ∃ below, job.fileConfig files = .ok below ∧ below.Completes entries := by
  unfold Job.Finds at h
  unfold Job.fileConfig
  cases hpath : job.configPath with
  | none =>
    simp only [hpath] at h
    subst h
    exact ⟨_, rfl, fun f a hmem => by contradiction, fun f _ => rfl⟩
  | some path =>
    simp only [hpath] at h
    obtain ⟨text, htext, hheld⟩ := h
    obtain ⟨config, hdecode, hcomplete⟩ := Config.exists_decode_of_heldBy hheld
    simp only [htext, hdecode]
    exact ⟨config, rfl, hcomplete⟩

/-- A valid pattern is run to the end, and what the library gives is printed. -/
theorem exists_shows (hjob : invocation.job? = some (verb, job)) {below : Config Float32}
    (hbelow : job.fileConfig files = .ok below) (hvalid : validate job.pattern = .ok ()) :
    ∃ text, invocation.Shows (job.overrides.apply below) text ∧
      invocation.outcome words files = .printed text := by
  -- A transformed pattern has the verdict of the pattern, so its run ends well.
  have htransformed := (Symmetry.validate_applyAll job.symmetries job.pattern).trans hvalid
  cases invocation with
  | draw j format =>
    obtain ⟨-, rfl⟩ := Prod.mk.inj (Option.some.inj hjob)
    obtain ⟨_, hdrawn⟩ := Trace.exists_outcome_of_verdict
      ((verdict_draw (j.overrides.apply below) j.start j.transformed).trans htransformed)
    have hprinted := outcome_draw_of_ok words files hbelow hdrawn format
    cases format with
    | json => exact ⟨_, .instructions rfl hdrawn, hprinted⟩
    | svg => exact ⟨_, .document rfl hdrawn, hprinted⟩
  | measure j =>
    obtain ⟨-, rfl⟩ := Prod.mk.inj (Option.some.inj hjob)
    obtain ⟨bounds, hmeasured⟩ := Trace.exists_outcome_of_verdict
      ((verdict_measure (j.overrides.apply below) j.start j.transformed).trans htransformed)
    exact ⟨_, .box rfl hmeasured, outcome_measure_of_ok words files hbelow hmeasured⟩
  | transform symmetries pattern => contradiction
  | version => contradiction

/-- Of a command line that draws or measures, with a configuration file that holds any of the
fields: each setting of the run is what its flag says, else what the file says, else the
standard.  A valid pattern, transformed as asked, is run by the library under these settings,
and what that gives is printed. -/
theorem flags_override_file_over_standard (hread : readCommandLine arguments = .ok invocation)
    (hjob : invocation.job? = some (verb, job)) (hfile : job.Finds files entries) :
    ∃ rest parts below config, arguments = verb.name :: rest ∧
      Spells verb rest parts ∧ (∀ other, Spells verb rest other → other = parts) ∧
      invocation.AskedBy parts ∧
      below.Completes entries ∧ Overridden parts below config ∧ job.config files = .ok config ∧
      (validate job.pattern = .ok () →
        ∃ text, invocation.Shows config text ∧ outcome words files arguments = .printed text) := by
  obtain ⟨rest, parts, read, hnamed, hspelled, hfold, hoverrides, hasked⟩ :=
    exists_parts hread hjob
  obtain ⟨below, hbelow, hcomplete⟩ := exists_fileConfig hfile
  have hoverridden := overridden_apply hfold below
  rw [← hoverrides] at hoverridden
  have hconfig : job.config files = .ok (job.overrides.apply below) := by
    rw [Job.config, hbelow]
    rfl
  refine ⟨rest, parts, below, _, hnamed, hspelled, fun _ => hspelled.unique, hasked, hcomplete,
    hoverridden, hconfig, fun hvalid => ?_⟩
  rw [outcome_of_read words files hread]
  exact exists_shows hjob hbelow hvalid

end Running

/-- A configuration file that leaves two settings open and holds a note of its own. -/
def settingsText : String :=
  "\x7b \"stroke_width\": 9, \"note\": [null], \"canvas\": [1e2, 2e2] \x7d\n"

def settingsEntries : List Config.record.Entry :=
  [⟨.strokeWidth, (9 : Float32)⟩, ⟨.canvas, (⟨100, 200⟩ : Point Float32)⟩]

def settingsFiles : Files := fun path =>
  if path = "c.json" then .ok settingsText else .error "No such file or directory (os error 2)"

def settingsLine : List String :=
  ["draw", "--config=c.json", "--canvas-width", "300", "3.|", "--width=2.5", "--step", "4",
    "--transform", "rotate90"]

def settingsJob : Job where
  pattern := "3.|"
  symmetries := [.rotate90]
  start := .centered
  configPath := some "c.json"
  overrides := ⟨some 4, some 300, none, none, some 2.5⟩

theorem heldBy_settingsText : Config.record.HeldBy settingsText settingsEntries := by
  let hundreds (d : Digit) : Value := .number ⟨false, [d], [], some (false, [2])⟩
  have hwidth : Form.read (α := Float32) (depthLimit - 1) (Value.nat 9).node = .ok 9 := by
    decide +kernel
  have hcanvas : Form.read (α := Point Float32) (depthLimit - 1)
      (Value.array [hundreds 1, hundreds 2]).node = .ok ⟨100, 200⟩ := by
    decide +kernel
  refine ⟨Value.memberNodes [("stroke_width", .nat 9), ("note", .array [.null]),
    ("canvas", .array [hundreds 1, hundreds 2])], ['\n'], by cbv, ?_, ?_, by decide⟩
  · simp [Blanks, isBlank]
  · refine .field (f := Config.Field.strokeWidth) (by decide) rfl hwidth ?_
    refine .other (Value.chars_writtenName "note") (by decide) rfl ?_
    exact .field (f := Config.Field.canvas) (by decide) rfl hcanvas .nil

/-- The step and the width are those of the flags, the width of the file being overridden; one
axis of the canvas is that of its flag and the other that of the file; the color is standard. -/
theorem settings_from_three_places :
    ∃ config : Config Float32, config = ⟨⟨4, 4⟩, ⟨300, 200⟩, "#000000", 2.5⟩ ∧
      ∃ text, (Invocation.draw settingsJob .json).Shows config text ∧
        outcome .silent settingsFiles settingsLine = .printed text := by
  have hread : readCommandLine settingsLine = .ok (.draw settingsJob .json) := by decide +kernel
  have hfound : settingsJob.Finds settingsFiles settingsEntries :=
    ⟨settingsText, rfl, heldBy_settingsText⟩
  obtain ⟨-, -, -, config, -, -, -, -, -, -, hconfig, hshown⟩ :=
    flags_override_file_over_standard hread rfl hfound
  have hvalue : (settingsJob.config settingsFiles).toOption
      = some ⟨⟨4, 4⟩, ⟨300, 200⟩, "#000000", 2.5⟩ := by
    decide +kernel
  rw [hconfig] at hvalue
  exact ⟨config, Option.some.inj hvalue,
    hshown ((validate_eq_ok_iff "3.|").2 (by decide +kernel))⟩

end CommandLine

end LineArt
