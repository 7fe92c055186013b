import LineArt.Proofs.Failure
import LineArt.Proofs.FiniteValues
import LineArt.Proofs.Outcomes

/-!
# Readable output

What a drawing or a measure prints as JSON is always one JSON text, but the types it was
written from read it back only while all coordinates are finite.  Nothing on the way from the
pattern to the text looks for an overflow: a coordinate beyond the range of floats is printed
as null, and then the output is not read.
-/

namespace LineArt

open Json

/-! ### Values without null -/

namespace Json

inductive Value.NullFree : Value → Prop where
  | bool (b : Bool) : NullFree (.bool b)
  | number (n : Numeral) : NullFree (.number n)
  | string (s : String) : NullFree (.string s)
  | array {items : List Value} (h : ∀ v ∈ items, NullFree v) : NullFree (.array items)
  | object {members : List (String × Value)} (h : ∀ m ∈ members, NullFree m.2) :
    NullFree (.object members)

namespace Value

theorem nullFree_string (s : String) : (string s).NullFree ↔ True :=
  iff_true_intro (.string s)

theorem nullFree_array {items : List Value} :
    (array items).NullFree ↔ ∀ v ∈ items, v.NullFree :=
  ⟨fun h => by cases h with | array h => exact h, .array⟩

theorem nullFree_object {members : List (String × Value)} :
    (object members).NullFree ↔ ∀ m ∈ members, m.2.NullFree :=
  ⟨fun h => by cases h with | object h => exact h, .object⟩

theorem nullFree_float {x : Float32} : (float x).NullFree ↔ x.isFinite = true := by
  unfold float
  cases h : x.isFinite with
  | false =>
    rw [numeral?_eq_none floatLayout h]
    exact ⟨fun hnull => by contradiction, fun hfinite => by contradiction⟩
  | true =>
    obtain ⟨n, hn, -, -⟩ := exists_numeral? floatLayout h
    rw [hn]
    exact iff_of_true (.number n) rfl

end Value

open Value

theorem nullFree_point {p : Point Float32} :
    (Form.write p).NullFree ↔ p.all Float32.isFinite = true := by
  show (array [float p.x, float p.y]).NullFree ↔ _
  simp [nullFree_array, nullFree_float, Point.all]

theorem nullFree_bounds {b : Bounds Float32} :
    (Form.write b).NullFree ↔ b.all Float32.isFinite = true := by
  show (object [("min", Form.write b.min), ("max", Form.write b.max)]).NullFree ↔ _
  simp [nullFree_object, nullFree_point, Bounds.all]

theorem nullFree_field :
    (f : Instruction.Field) → (content : f.Content) →
      ((f.form.write content).NullFree ↔ f.all content = true)
  | .color, s => (nullFree_string s).trans (iff_true_intro rfl).symm
  | .width, _ | .radius, _ | .startAngle, _ | .endAngle, _ | .thickness, _ => nullFree_float
  | .point, _ | .min, _ | .max, _ | .center, _ => nullFree_point

theorem nullFree_instruction {i : Instruction Float32} :
    (Form.write i).NullFree ↔ i.all Float32.isFinite = true := by
  show (object ((Instruction.tag, string i.op.name) :: i.members.2)).NullFree ↔ _
  have hmembers : (∀ m ∈ i.members.2, m.2.NullFree) ↔
      ∀ entry ∈ i.entries, entry.1.all entry.2 = true := by
    rw [i.members_eq]
    exact List.forall_mem_map.trans
      (forall₂_congr fun entry _ => nullFree_field entry.1 entry.2)
  rw [nullFree_object, List.forall_mem_cons, nullFree_string, true_and, hmembers,
    ← i.all_entries, List.all_eq_true]

theorem nullFree_instructions {is : List (Instruction Float32)} :
    (Form.write is).NullFree ↔ is.all (Instruction.all Float32.isFinite) = true := by
  show (array (is.map Form.write)).NullFree ↔ _
  rw [nullFree_array, List.all_eq_true, List.forall_mem_map]
  exact forall₂_congr fun i _ => nullFree_instruction

/-! ### A text and the end of its line -/

theorem read_prettyLine {v : Value} (h : v.Proper) :
    Node.read (v.prettyText ++ "\n").toList = (v.node, some ['\n']) := by
  have hends : EndsNumeral ['\n'] := by
    intro c hc
    obtain rfl : '\n' = c := Option.some.inj hc
    decide
  have htext : (v.prettyText ++ "\n").toList = v.indented 0 ++ ['\n'] := by
    simp [Value.prettyText]
  rw [htext]
  exact (h.readsAs_indented 0).read _ hends _ (by simp; omega)

theorem Faithful.decode_prettyLine {α : Type} [Form α] {depth : ℕ} {ok : α → Bool}
    {reread : α → α} (h : Faithful α depth ok reread) (hle : depth ≤ depthLimit) (a : α) :
    decode ((Form.write a).prettyText ++ "\n") = outcome (ok a) (reread a) := by
  have hblank : Blanks ['\n'] := List.forall_mem_singleton.2 (by decide)
  rw [decode_eq_read_of_blanks (read_prettyLine (h.fits a).proper) hblank, h.read hle]

end Json

/-! ### What a drawing records -/

section Drawing

variable {α β γ : Type}

theorem Trace.forall_mem_andThen {P : Instruction α → Prop} {t : Trace α β}
    {next : β → Trace α γ} (ht : ∀ i ∈ t.instructions, P i)
    (hnext : ∀ b, ∀ i ∈ (next b).instructions, P i) :
    ∀ i ∈ (t.andThen next).instructions, P i := by
  cases h : t.outcome with
  | error fault =>
    rw [instructions_andThen_of_error next h]
    exact ht
  | ok b =>
    rw [instructions_andThen_of_ok next h, List.forall_mem_append]
    exact ⟨ht, hnext b⟩

/-- The motions and the three instructions around them. -/
def Instruction.OfRun (config : Config α) (i : Instruction α) : Prop :=
  i.isMotion ∨
    i ∈ [.setStrokeStyle config.strokeColor config.strokeWidth, .beginPath, .stroke]

section Checked

variable {config : Config α} {ok : α → Bool}

theorem all_of_ofRun (hwidth : ok config.strokeWidth = true) {i : Instruction α}
    (h : i.OfRun config) : i.all ok = i.target?.all (Point.all ok) := by
  rcases h with h | h
  · cases i <;> first | rfl | contradiction
  · simp only [List.mem_cons, List.not_mem_nil, or_false] at h
    rcases h with rfl | rfl | rfl
    · exact hwidth
    · rfl
    · rfl

theorem all_of_forall_ofRun (hwidth : ok config.strokeWidth = true) {is : List (Instruction α)}
    (h : ∀ i ∈ is, i.OfRun config) :
    is.all (Instruction.all ok) = (is.filterMap Instruction.target?).all (Point.all ok) := by
  induction is with
  | nil => rfl
  | cons i is ih =>
    obtain ⟨hi, his⟩ := List.forall_mem_cons.1 h
    rw [List.all_cons, all_of_ofRun hwidth hi, ih his, List.filterMap_cons]
    cases i.target? <;> simp

end Checked

variable [Scalar α] (config : Config α)

theorem ofRun_execute (point : Point α) (pattern : String) (mode : Mode) :
    ∀ i ∈ (execute config point pattern mode).instructions, i.OfRun config := by
  rw [execute_eq, Trace.instructions_after, List.forall_mem_append]
  constructor
  · cases mode <;> simp [prologue, Instruction.OfRun, Instruction.isMotion, Instruction.target?]
  · apply Trace.forall_mem_andThen
    · exact fun i hi => .inl (isMotion_of_mem_walk _ _ _ _ i hi)
    · cases mode <;> simp [epilogue, Instruction.OfRun, Trace.done]

theorem ofRun_draw (start : Start α) (pattern : String) :
    ∀ i ∈ (draw config start pattern).instructions, i.OfRun config := by
  rw [instructions_draw]
  apply Trace.forall_mem_andThen
  · intro i hi
    obtain ⟨p, rfl⟩ := onlyMoves_startingPoint config start pattern i hi
    exact .inl rfl
  · exact fun point => ofRun_execute config point pattern .draw

end Drawing

namespace CommandLine

/-! ### Finite settings -/

namespace Overrides

def all (ok : Float32 → Bool) (o : Overrides) : Bool :=
  o.step.all ok && o.canvasWidth.all ok && o.canvasHeight.all ok && o.width.all ok

variable {ok : Float32 → Bool} {o : Overrides} {config : Config Float32}

theorem all_getD {value : Option Float32} {x : Float32} (hvalue : value.all ok = true)
    (hx : ok x = true) : ok (value.getD x) = true := by
  cases value with
  | none => exact hx
  | some v => exact hvalue

/-- Settings put over others keep what both have. -/
theorem all_apply (ho : o.all ok = true) (hconfig : config.all ok = true) :
    (o.apply config).all ok = true := by
  simp only [all, Config.all, Point.all, Bool.and_eq_true] at ho hconfig
  obtain ⟨⟨⟨hstep, hcanvasWidth⟩, hcanvasHeight⟩, hwidth⟩ := ho
  obtain ⟨⟨hsteps, hx, hy⟩, hline⟩ := hconfig
  have happlied : ((o.step.map Point.splat).getD config.step).all ok = true := by
    cases hstepped : o.step with
    | none => exact Bool.and_eq_true_iff.2 hsteps
    | some step =>
      rw [hstepped] at hstep
      exact Bool.and_eq_true_iff.2 ⟨hstep, hstep⟩
  simp only [apply, Config.all, Point.all, Bool.and_eq_true] at happlied ⊢
  exact ⟨⟨happlied, all_getD hcanvasWidth hx, all_getD hcanvasHeight hy⟩, all_getD hwidth hline⟩

end Overrides

/-- The numbers of the flags and of the configuration are finite. -/
structure Job.IsFinite (job : Job) (files : Files) : Prop where
  start : job.start.all Float32.isFinite = true
  overrides : job.overrides.all Float32.isFinite = true
  config : ∀ config, job.fileConfig files = .ok config → config.all Float32.isFinite = true

/-- Without a configuration file the settings are the standard ones, which are finite. -/
theorem Job.isFinite_of_no_file {job : Job} (files : Files) (hpath : job.configPath = none)
    (hstart : job.start.all Float32.isFinite = true)
    (hoverrides : job.overrides.all Float32.isFinite = true) : job.IsFinite files where
  start := hstart
  overrides := hoverrides
  config config hconfig := by
    rw [Job.fileConfig, hpath] at hconfig
    obtain rfl := Except.ok.inj hconfig
    rfl

/-! ### The printed line -/

/-- The output is the JSON text of a value, and where it is `whole` the value is read back. -/
structure ShowsJson {α : Type} [Form α] (stdout : String) (a : α) (whole : Bool) : Prop where
  text : stdout = (Form.write a).prettyText ++ "\n"
  parsed : Node.read stdout.toList = ((Form.write a).node, some ['\n'])
  nullFree : (Form.write a).NullFree ↔ whole = true
  decoded : decode stdout = Json.outcome whole a

theorem showsJson_of_faithful {α : Type} [Form α] {depth : ℕ} {ok : α → Bool} {reread : α → α}
    (h : Faithful α depth ok reread) (hle : depth ≤ depthLimit)
    (hkeep : ∀ a, ok a = true → reread a = a)
    (hnull : ∀ a : α, (Form.write a).NullFree ↔ ok a = true) (a : α) :
    ShowsJson ((Form.write a).prettyText ++ "\n") a (ok a) where
  text := rfl
  parsed := read_prettyLine (h.fits a).proper
  nullFree := hnull a
  decoded := (h.decode_prettyLine hle a).trans (outcome_kept hkeep a)

theorem showsJson_bounds (b : Bounds Float32) :
    ShowsJson ((Form.write b).prettyText ++ "\n") b (b.all Float32.isFinite) :=
  showsJson_of_faithful bounds_faithful (by decide)
    (fun _ => Bounds.map_eq_self fun _ => reread_of_isFinite) (fun _ => nullFree_bounds) b

theorem showsJson_instructions (is : List (Instruction Float32)) :
    ShowsJson ((Form.write is).prettyText ++ "\n") is
      (is.all (Instruction.all Float32.isFinite)) :=
  showsJson_of_faithful instruction_faithful.list (by decide)
    (fun _ => map_list_eq_self fun _ => Instruction.map_eq_self fun _ => reread_of_isFinite)
    (fun _ => nullFree_instructions) is

variable (words : Wording) (files : Files) {arguments : List String} {job : Job}

/-- What a command that ended well with code 0 had read and run. -/
theorem exists_config_of_code {invocation : Invocation} {verb : Verb}
    (hjob : invocation.job? = some (verb, job))
    (hcode : (invocation.outcome words files).code = 0) :
    (∃ config, job.fileConfig files = .ok config) ∧ validate job.transformed = .ok () := by
  have hnone := failure?_of_code words files hjob hcode
  obtain ⟨hconfigured, hvalid⟩ := (job.failure?_eq_none_iff files verb).1 hnone
  exact ⟨(job.configured_iff files).1 hconfigured,
    (Symmetry.validate_applyAll job.symmetries job.pattern).trans hvalid⟩

/-- What a drawing or a measure from finite settings prints as JSON when it ends with code 0 is
one JSON text.  It is free of null just when no coordinate has overflowed: then the instructions
drawn, or the box measured, are read back from it as they were, and otherwise nothing is. -/
theorem json_output_is_read_back_unless_overflown (hfinite : job.IsFinite files)
    (hcode : (outcome words files arguments).code = 0) :
    (readCommandLine arguments = .ok (.draw job .json) →
      ∃ config, job.config files = .ok config ∧
        ShowsJson (outcome words files arguments).stdout
          (draw config job.start job.transformed).instructions
          (((draw config job.start job.transformed).instructions.filterMap
            Instruction.target?).all (Point.all Float32.isFinite))) ∧
    (readCommandLine arguments = .ok (.measure job) →
      ∃ config bounds, job.config files = .ok config ∧
        (measure config job.start job.transformed).outcome = .ok bounds ∧
        ShowsJson (outcome words files arguments).stdout bounds (bounds.all Float32.isFinite)) := by
  constructor
  · intro hread
    rw [outcome_of_read words files hread] at hcode ⊢
    obtain ⟨⟨config, hconfig⟩, hvalid⟩ := exists_config_of_code words files rfl hcode
    have happlied := Overrides.all_apply hfinite.overrides (hfinite.config config hconfig)
    obtain ⟨_, hdrawn⟩ := Trace.exists_outcome_of_verdict
      ((verdict_draw (job.overrides.apply config) job.start job.transformed).trans hvalid)
    have hwidth : (job.overrides.apply config).strokeWidth.isFinite = true :=
      (Bool.and_eq_true_iff.1 happlied).2
    refine ⟨job.overrides.apply config, by rw [Job.config, hconfig]; rfl, ?_⟩
    rw [outcome_draw_of_ok words files hconfig hdrawn,
      ← all_of_forall_ofRun hwidth (ofRun_draw _ _ _)]
    exact showsJson_instructions _
  · intro hread
    rw [outcome_of_read words files hread] at hcode ⊢
    obtain ⟨⟨config, hconfig⟩, hvalid⟩ := exists_config_of_code words files rfl hcode
    obtain ⟨bounds, hbounds⟩ := Trace.exists_outcome_of_verdict
      ((verdict_measure (job.overrides.apply config) job.start job.transformed).trans hvalid)
    refine ⟨job.overrides.apply config, bounds, by rw [Job.config, hconfig]; rfl, hbounds, ?_⟩
    rw [outcome_measure_of_ok words files hconfig hbounds]
    exact showsJson_bounds bounds

/-- A small pattern under the standard settings, from the origin. -/
def smallJob : Job := ⟨"3.|-", [], .ofPoint ⟨0, 0⟩, none, ⟨none, none, none, none, none⟩⟩

def smallDrawing : List String := ["draw", "3.|-", "--x", "0", "--y", "0"]

def smallMeasure : List String := ["measure", "3.|-", "--x", "0", "--y", "0"]

theorem small_outputs_are_read_back :
    (∃ is : List (Instruction Float32),
      decode (outcome .silent noFiles smallDrawing).stdout = .ok is ∧ (Form.write is).NullFree) ∧
      decode (outcome .silent noFiles smallMeasure).stdout
        = .ok (⟨⟨0, 0⟩, ⟨30, 10⟩⟩ : Bounds Float32) := by
  have hfinite : smallJob.IsFinite noFiles := Job.isFinite_of_no_file noFiles rfl rfl rfl
  have hdraw : readCommandLine smallDrawing = .ok (.draw smallJob .json) := by rfl
  have hmeasure : readCommandLine smallMeasure = .ok (.measure smallJob) := by rfl
  have hdrawn : (outcome .silent noFiles smallDrawing).code = 0 := by
    rw [outcome_of_read .silent noFiles hdraw]
    exact code_of_none .silent noFiles rfl rfl
  have hmeasured : (outcome .silent noFiles smallMeasure).code = 0 := by
    rw [outcome_of_read .silent noFiles hmeasure]
    exact code_of_none .silent noFiles rfl rfl
  obtain ⟨config, hconfig, hshown⟩ :=
    (json_output_is_read_back_unless_overflown .silent noFiles hfinite hdrawn).1 hdraw
  obtain ⟨config', bounds, hconfig', hbounds, hbox⟩ :=
    (json_output_is_read_back_unless_overflown .silent noFiles hfinite hmeasured).2 hmeasure
  obtain rfl := Except.ok.inj hconfig
  obtain rfl := Except.ok.inj hconfig'
  obtain rfl := Except.ok.inj hbounds
  exact ⟨⟨_, hshown.decoded, hshown.nullFree.2 rfl⟩, hbox.decoded⟩

/-- The float written `3e38`, not far below the greatest. -/
def far : Float32 := Float32.ofBits 0x7F61B1E6

def farJob : Job := ⟨".", [], .ofPoint ⟨far, 0⟩, none, ⟨some far, none, none, none, none⟩⟩

def farMeasure : List String := ["measure", ".", "--x", "3e38", "--y", "0", "--step", "3e38"]

set_option maxRecDepth 10000 in
theorem readCommandLine_farMeasure : readCommandLine farMeasure = .ok (.measure farJob) := by rfl

/-- One move from a finite start by a finite step leaves the range of floats; the box is printed
with a null, the command ends well, and the box is not read back. -/
theorem overflown_box_is_not_read_back :
    readCommandLine farMeasure = .ok (.measure farJob) ∧ farJob.IsFinite noFiles ∧
      (outcome .silent noFiles farMeasure).code = 0 ∧
      (outcome .silent noFiles farMeasure).stdout
        = (Form.write (⟨⟨far, 0⟩, ⟨far + far, 0⟩⟩ : Bounds Float32)).prettyText ++ "\n" ∧
      ¬ (Form.write (⟨⟨far, 0⟩, ⟨far + far, 0⟩⟩ : Bounds Float32)).NullFree ∧
      (decode (outcome .silent noFiles farMeasure).stdout : Except Fault (Bounds Float32))
        = .error .mismatch := by
  have hfinite : farJob.IsFinite noFiles := Job.isFinite_of_no_file noFiles rfl rfl rfl
  have hconfig : farJob.fileConfig noFiles = .ok .standard := rfl
  have hbounds : (measure (farJob.overrides.apply .standard) farJob.start
      farJob.transformed).outcome = .ok ⟨⟨far, 0⟩, ⟨far + far, 0⟩⟩ := by rfl
  have hshown := showsJson_bounds ⟨⟨far, 0⟩, ⟨far + far, 0⟩⟩
  have hwhole : (⟨⟨far, 0⟩, ⟨far + far, 0⟩⟩ : Bounds Float32).all Float32.isFinite = false := by
    rfl
  rw [hwhole] at hshown
  rw [outcome_of_read .silent noFiles readCommandLine_farMeasure,
    outcome_measure_of_ok .silent noFiles hconfig hbounds]
  exact ⟨readCommandLine_farMeasure, hfinite, rfl, hshown.text,
    fun hnull => absurd (hshown.nullFree.1 hnull) (by decide), hshown.decoded⟩

end CommandLine

end LineArt
