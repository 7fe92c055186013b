import LineArt.Proofs.Options

/-!
# Requests

What a command line that runs a pattern asks for, told from its options and plain texts: a
job takes each of its values from the text of an option, or else has the standard one, and
its pattern is the one plain text.
-/

namespace LineArt.CommandLine

/-- A setting is what the text given to an option says, or else it is taken from below. -/
structure Decided (parts : List Part) (flag : Flag) {β : Type} (use : flag.Content → β)
    (below value : β) : Prop where
  given : ∀ text, .option flag text ∈ parts → (flag.value? text).map use = some value
  omitted : (∀ text, .option flag text ∉ parts) → value = below

section Decided

variable {parts : List Part} {flag : Flag} {β : Type}

theorem decided_getD {value : Option flag.Content}
    (h : value.toList.map some = (texts flag parts).map flag.value?) (use : flag.Content → β)
    (below : β) : Decided parts flag use below ((value.map use).getD below) where
  given text hpart := by
    have hmem : flag.value? text ∈ (texts flag parts).map flag.value? :=
      List.mem_map_of_mem (mem_texts.2 hpart)
    rw [← h] at hmem
    cases value with
    | none => contradiction
    | some v =>
      obtain hvalue : flag.value? text = some v := by simpa using hmem
      rw [hvalue]
      rfl
  omitted hparts := by
    have hnone : texts flag parts = [] :=
      List.eq_nil_iff_forall_not_mem.2 fun text hmem => hparts text (mem_texts.1 hmem)
    rw [hnone] at h
    cases value with
    | none => rfl
    | some v => contradiction

theorem decided_getD_id {value : Option flag.Content}
    (h : value.toList.map some = (texts flag parts).map flag.value?) (below : flag.Content) :
    Decided parts flag id below (value.getD below) := by
  have hdecided := decided_getD h id below
  rwa [Option.map_id] at hdecided

end Decided

/-- The job that the options and plain texts of a command line ask for. -/
structure Job.AskedBy (job : Job) (parts : List Part) : Prop where
  once : ∀ flag ≠ .transform, (texts flag parts).length ≤ 1
  pattern : plainTexts parts = [job.pattern]
  symmetries : (texts .transform parts).map Symmetry.ofName? = job.symmetries.map some
  x : Decided parts .x Coord.fixed .centered job.start.x
  y : Decided parts .y Coord.fixed .centered job.start.y
  configPath : Decided parts .config some none job.configPath

/-- What the options and plain texts of a command line ask for, where it runs a pattern. -/
inductive Invocation.AskedBy (parts : List Part) : Invocation → Prop where
  | draw {job : Job} {format : Format} (asked : job.AskedBy parts)
    (printed : Decided parts .format id .json format) : AskedBy parts (.draw job format)
  | measure {job : Job} (asked : job.AskedBy parts) : AskedBy parts (.measure job)

section Given

variable {read : Given} {parts : List Part}
  (hfold : parts.foldlM Given.take {} = .ok read)

include hfold

theorem length_texts_le {flag : Flag} (hflag : flag ≠ .transform) :
    (texts flag parts).length ≤ 1 := by
  have hlength := congrArg List.length (values_of_parts hfold flag)
  rw [List.length_map, List.length_map] at hlength
  rw [← hlength]
  cases flag with
  | transform => contradiction
  | _ => exact Option.length_toList_le

theorem askedBy_job {pattern : String} (hpattern : plainTexts parts = [pattern]) :
    (read.job pattern).AskedBy parts where
  once _ := length_texts_le hfold
  pattern := hpattern
  symmetries := (values_of_parts hfold .transform).symm
  x := by
    have hx : (read.job pattern).start.x = (read.x.map Coord.fixed).getD .centered := by
      cases h : read.x <;> simp [Given.job, coord, h]
    exact hx ▸ decided_getD (values_of_parts hfold .x) _ _
  y := by
    have hy : (read.job pattern).start.y = (read.y.map Coord.fixed).getD .centered := by
      cases h : read.y <;> simp [Given.job, coord, h]
    exact hy ▸ decided_getD (values_of_parts hfold .y) _ _
  configPath := by
    have hpath : (read.job pattern).configPath = (read.config.map some).getD none := by
      cases h : read.config <;> simp [Given.job, h]
    exact hpath ▸ decided_getD (values_of_parts hfold .config) _ _

end Given

/-! ### Reading -/

variable {verb : Verb} {invocation : Invocation} {job : Job}
  {arguments : List String}

theorem job?_of_withoutCommand {command : String}
    (h : withoutCommand command = .ok invocation) : invocation.job? = none := by
  unfold withoutCommand at h
  repeat' split at h
  all_goals first
    | contradiction
    | (obtain rfl := Except.ok.inj h; rfl)

theorem askedBy_of_invocation {read : Given} {parts : List Part} {found : Verb}
    (hfold : parts.foldlM Given.take {} = .ok read)
    (hasked : read.invocation found = .ok invocation)
    (hjob : invocation.job? = some (verb, job)) :
    found = verb ∧ job.overrides = read.overrides ∧ invocation.AskedBy parts := by
  unfold Given.invocation at hasked
  split at hasked
  · contradiction
  · rename_i pattern hpattern
    have hplain : plainTexts parts = [pattern] := by
      have h := pattern_of_foldlM hfold
      rw [hpattern] at h
      exact h.symm
    cases found with
    | draw =>
      obtain rfl := Except.ok.inj hasked
      obtain ⟨rfl, rfl⟩ := Prod.mk.inj (Option.some.inj hjob)
      exact ⟨rfl, rfl, .draw (askedBy_job hfold hplain)
        (decided_getD_id (values_of_parts hfold .format) Format.json)⟩
    | measure =>
      obtain rfl := Except.ok.inj hasked
      obtain ⟨rfl, rfl⟩ := Prod.mk.inj (Option.some.inj hjob)
      exact ⟨rfl, rfl, .measure (askedBy_job hfold hplain)⟩
    | transform =>
      dsimp only at hasked
      split at hasked
      · contradiction
      · obtain rfl := Except.ok.inj hasked
        contradiction

/-- A command line that runs a pattern names its command and then gives options and one plain
text. -/
theorem exists_parts (hread : readCommandLine arguments = .ok invocation)
    (hjob : invocation.job? = some (verb, job)) :
    ∃ rest parts read, arguments = verb.name :: rest ∧ Spells verb rest parts ∧
      parts.foldlM Given.take {} = .ok read ∧ job.overrides = read.overrides ∧
      invocation.AskedBy parts := by
  cases arguments with
  | nil => contradiction
  | cons command rest =>
    simp only [readCommandLine] at hread
    split at hread
    · rename_i found hfound
      obtain ⟨read, hgiven, hinvocation⟩ := exists_ok_of_bind hread
      obtain ⟨parts, hspelled, hfold⟩ := exists_spells hgiven
      obtain ⟨rfl, hoverrides, hasked⟩ := askedBy_of_invocation hfold hinvocation hjob
      have hcommand : found.name = command := by simpa using List.find?_some hfound
      exact ⟨rest, parts, read, by rw [hcommand], hspelled, hfold, hoverrides, hasked⟩
    · split at hread
      · contradiction
      · rw [job?_of_withoutCommand hread] at hjob
        contradiction

end LineArt.CommandLine
