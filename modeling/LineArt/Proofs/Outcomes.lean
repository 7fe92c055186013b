import LineArt.CommandLine.Outcome
import LineArt.Proofs.Relabelling
import LineArt.Proofs.Verdict

/-!
# Outcomes of a job

What keeps a job from its end is a fault of its configuration or, failing that, the first
bad character of the typed pattern: the run of the transformed text is judged as that is.
From this the outcome of a command that runs a pattern is known without running it, but for
what it prints.
-/

namespace LineArt.CommandLine

theorem exists_ok_of_bind {ε β γ : Type} {x : Except ε β} {next : β → Except ε γ} {c : γ}
    (h : x >>= next = .ok c) : ∃ b, x = .ok b ∧ next b = .ok c := by
  cases x with
  | error e => contradiction
  | ok b => exact ⟨b, rfl, h⟩

/-- The job of a command that runs a pattern. -/
def Invocation.job? : Invocation → Option (Verb × Job)
  | draw job _ => some (.draw, job)
  | measure job => some (.measure, job)
  | _ => none

/-! ### Jobs -/

namespace Job

variable (job : Job) (files : Files)

/-- The configuration file, if one is given, opens and parses. -/
def Configured : Prop :=
  ∀ path, job.configPath = some path →
    ∃ text config, files path = .ok text ∧ Json.decode text = .ok (config : Config Float32)

/-- What keeps a job from its end: a fault of the configuration, or else the first bad
character of the typed pattern. -/
def failure? (verb : Verb) : Option Failure :=
  match job.fileConfig files with
  | .error failure => some failure
  | .ok _ =>
    match validate job.pattern with
    | .error fault => some (.pattern verb job.transformed fault)
    | .ok _ => none

theorem configured_iff : job.Configured files ↔ ∃ config, job.fileConfig files = .ok config := by
  unfold Configured fileConfig
  cases job.configPath with
  | none => exact ⟨fun _ => ⟨_, rfl⟩, fun _ path h => by contradiction⟩
  | some path =>
    dsimp only
    constructor
    · intro h
      obtain ⟨text, config, htext, hconfig⟩ := h path rfl
      rw [htext]
      exact ⟨config, by simp only [hconfig, Except.mapError]⟩
    · rintro ⟨config, hconfig⟩ p hp
      obtain rfl := Option.some.inj hp
      cases htext : files path with
      | error reason =>
        rw [htext] at hconfig
        contradiction
      | ok text =>
        rw [htext] at hconfig
        cases hdecode : (Json.decode text : Except Json.Fault (Config Float32)) with
        | error fault =>
          simp only [hdecode, Except.mapError] at hconfig
          contradiction
        | ok c => exact ⟨text, c, rfl, hdecode⟩

theorem failure?_eq_none_iff (verb : Verb) :
    job.failure? files verb = none ↔ job.Configured files ∧ validate job.pattern = .ok () := by
  rw [configured_iff]
  unfold failure?
  cases job.fileConfig files <;> cases validate job.pattern <;> simp

variable {β : Type} {run : Config Float32 → Start Float32 → String → Trace Float32 β}

theorem perform_of_error (verb : Verb) {failure : Failure}
    (h : job.fileConfig files = .error failure) :
    job.perform verb files run = .error failure := by
  unfold perform Job.config
  rw [h]
  rfl

theorem perform_of_ok (verb : Verb) {config : Config Float32}
    (h : job.fileConfig files = .ok config) :
    job.perform verb files run
      = ((run (job.overrides.apply config) job.start job.transformed).outcome.mapError
          (.pattern verb job.transformed)).map fun result =>
            (job.overrides.apply config,
              ⟨(run (job.overrides.apply config) job.start job.transformed).instructions⟩,
              result) := by
  unfold perform Job.config
  rw [h]
  rfl

section Judged

variable (hrun : ∀ config start pattern, (run config start pattern).verdict = validate pattern)

include hrun

/-- The run of the transformed text is judged as the typed pattern is. -/
theorem outcome_transformed (config : Config Float32) :
    (run config job.start job.transformed).outcome.map (fun _ => ())
      = validate job.pattern :=
  (hrun config job.start job.transformed).trans
    (Symmetry.validate_applyAll job.symmetries job.pattern)

/-- A job whose run judges texts as `validate` does ends as `failure?` says. -/
theorem perform_judged (verb : Verb) :
    (job.perform verb files run).map (fun _ => ())
      = (job.failure? files verb).elim (.ok ()) .error := by
  unfold failure?
  cases hconfig : job.fileConfig files with
  | error failure =>
    rw [job.perform_of_error files verb hconfig]
    rfl
  | ok config =>
    have hjudged := job.outcome_transformed hrun (job.overrides.apply config)
    rw [job.perform_of_ok files verb hconfig]
    cases hresult : (run (job.overrides.apply config) job.start job.transformed).outcome with
    | error fault =>
      rw [hresult] at hjudged
      simp only [← hjudged]
      rfl
    | ok result =>
      rw [hresult] at hjudged
      simp only [← hjudged]
      rfl

end Judged

end Job

theorem verdict_draw (config : Config Float32) (start : Start Float32) (pattern : String) :
    (LineArt.draw config start pattern).verdict = validate pattern := by
  rw [draw_eq, Trace.verdict_andThen_done, verdict_run]

theorem verdict_measure (config : Config Float32) (start : Start Float32) (pattern : String) :
    (LineArt.measure config start pattern).verdict = validate pattern := by
  rw [measure_eq, Trace.verdict_andThen_done, verdict_run]

section Running

variable (words : Wording) (files : Files) {verb : Verb} {invocation : Invocation} {job : Job}
  {arguments : List String}

theorem output_judged (hjob : invocation.job? = some (verb, job)) :
    (invocation.output files).map (fun _ => ())
      = (job.failure? files verb).elim (.ok ()) .error := by
  cases invocation with
  | draw j format =>
    obtain ⟨rfl, rfl⟩ := Prod.mk.inj (Option.some.inj hjob)
    rw [← j.perform_judged files verdict_draw .draw, Invocation.output]
    cases j.perform .draw files LineArt.draw <;> rfl
  | measure j =>
    obtain ⟨rfl, rfl⟩ := Prod.mk.inj (Option.some.inj hjob)
    rw [← j.perform_judged files verdict_measure .measure, Invocation.output]
    cases j.perform .measure files LineArt.measure <;> rfl
  | transform symmetries pattern => contradiction
  | version => contradiction

theorem outcome_of_failure {failure : Failure}
    (hjob : invocation.job? = some (verb, job)) (h : job.failure? files verb = some failure) :
    invocation.outcome words files = ⟨1, "", failure.message words⟩ := by
  have hjudged := output_judged files hjob
  rw [h] at hjudged
  unfold Invocation.outcome
  cases houtput : invocation.output files with
  | ok text =>
    rw [houtput] at hjudged
    contradiction
  | error found =>
    rw [houtput] at hjudged
    rw [Except.error.inj hjudged]

theorem failure?_of_code (hjob : invocation.job? = some (verb, job))
    (hcode : (invocation.outcome words files).code = 0) : job.failure? files verb = none := by
  cases hfailure : job.failure? files verb with
  | none => rfl
  | some failure =>
    rw [outcome_of_failure words files hjob hfailure] at hcode
    exact absurd hcode (show (1 : UInt32) ≠ 0 by decide)

theorem code_of_none (hjob : invocation.job? = some (verb, job))
    (h : job.failure? files verb = none) : (invocation.outcome words files).code = 0 := by
  have hjudged := output_judged files hjob
  rw [h] at hjudged
  unfold Invocation.outcome
  cases houtput : invocation.output files with
  | ok text => rfl
  | error found =>
    rw [houtput] at hjudged
    contradiction

theorem outcome_of_read (hread : readCommandLine arguments = .ok invocation) :
    outcome words files arguments = invocation.outcome words files := by
  unfold outcome
  rw [hread]

theorem outcome_measure_of_ok {config : Config Float32}
    (hconfig : job.fileConfig files = .ok config) {bounds : Bounds Float32}
    (hbounds : (LineArt.measure (job.overrides.apply config) job.start job.transformed).outcome
      = .ok bounds) :
    (Invocation.measure job).outcome words files
      = ⟨0, (Json.Form.write bounds).prettyText ++ "\n", ""⟩ := by
  simp only [Invocation.outcome, Invocation.output, job.perform_of_ok files .measure hconfig,
    hbounds]
  rfl

theorem outcome_draw_of_ok {config : Config Float32}
    (hconfig : job.fileConfig files = .ok config)
    (hdrawn : (LineArt.draw (job.overrides.apply config) job.start job.transformed).outcome
      = .ok ()) (format : Format) :
    (Invocation.draw job format).outcome words files
      = ⟨0, format.print (job.overrides.apply config)
          ⟨(LineArt.draw (job.overrides.apply config) job.start job.transformed).instructions⟩
            ++ "\n", ""⟩ := by
  simp only [Invocation.outcome, Invocation.output, job.perform_of_ok files .draw hconfig,
    hdrawn]
  rfl

/-- The fault of the configuration, where there is one, comes before any fault of the pattern. -/
theorem Job.failure?_of_openConfig (job : Job) (verb : Verb) {path reason : String}
    (hpath : job.configPath = some path) (hfile : files path = .error reason) :
    job.failure? files verb = some (.openConfig path reason) := by
  simp only [Job.failure?, Job.fileConfig, hpath, hfile]

theorem Job.failure?_of_parseConfig (job : Job) (verb : Verb) {path text : String}
    {fault : Json.Fault} (hpath : job.configPath = some path) (hfile : files path = .ok text)
    (htext : (Json.decode text : Except Json.Fault (Config Float32)) = .error fault) :
    job.failure? files verb = some (.parseConfig path text) := by
  simp only [Job.failure?, Job.fileConfig, hpath, hfile, htext, Except.mapError]

theorem Job.failure?_of_pattern (job : Job) (verb : Verb) {fault : InvalidToken}
    (hconfigured : job.Configured files) (hvalidate : validate job.pattern = .error fault) :
    job.failure? files verb = some (.pattern verb job.transformed fault) := by
  obtain ⟨config, hconfig⟩ := (job.configured_iff files).mp hconfigured
  simp only [Job.failure?, hconfig, hvalidate]

end Running

/-- No file opens. -/
def noFiles : Files := fun _ => .error "No such file or directory (os error 2)"

end LineArt.CommandLine
