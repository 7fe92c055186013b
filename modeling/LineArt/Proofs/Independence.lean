import LineArt.Operation
import LineArt.Proofs.Walk
import Mathlib.Control.Monad.Basic

/-!
# Independent runs

What a surface holds does not matter to a run: it appends what it gives on its own, as its
trace says, and ends alike.  From this, operation by operation, the content and the answers
of a session are those of its operations each on its own.
-/

namespace LineArt

variable {α β γ : Type}

namespace Surface

/-- On whatever recording, `x` appends what the trace gives and ends as the trace does. -/
def Performs (x : OnSurface α β) (t : Trace α β) : Prop :=
  ∀ r, x.run.run r = (t.outcome, r.append t.instructions)

theorem append_nil (r : Recording α) : r.append [] = r := by
  simp [Recording.append]

theorem performs_pure (b : β) : Performs (pure b : OnSurface α β) (.done b) := by
  intro r
  rw [Trace.done, append_nil]
  rfl

theorem performs_throw (fault : InvalidToken) :
    Performs (throw fault : OnSurface α β) (.fail fault) := by
  intro r
  rw [Trace.fail, append_nil]
  rfl

theorem performs_tell (i : Instruction α) : Performs (tell i) (.emit [i]) := by
  intro r
  rfl

theorem Performs.bind {x : OnSurface α β} {t : Trace α β} {f : β → OnSurface α γ}
    {g : β → Trace α γ} (hx : Performs x t) (hf : ∀ b, Performs (f b) (g b)) :
    Performs (x >>= f) (t.andThen g) := by
  intro r
  obtain ⟨is, outcome⟩ := t
  have hfirst := hx r
  rw [ExceptT.run_bind, StateT.run_bind, hfirst]
  cases outcome with
  | error fault => rfl
  | ok b =>
    show (f b).run.run (r.append is) = _
    rw [hf b (r.append is), Recording.append_append]
    rfl

theorem performs_tellAll (is : List (Instruction α)) : Performs (tellAll is) (.emit is) := by
  induction is with
  | nil => exact performs_pure ()
  | cons i rest ih => exact (performs_tell i).bind fun _ => ih

theorem Performs.after {is : List (Instruction α)} {x : OnSurface α β} {t : Trace α β}
    (h : Performs x t) : Performs (tellAll is >>= fun _ => x) (.after is t) := by
  have hbind := (performs_tellAll is).bind fun _ => h
  rwa [Trace.emit, Trace.after_andThen, Trace.done_andThen] at hbind

variable [Scalar α]

theorem performs_walk (step : Point α) (mode : Mode) (c : Cursor α)
    (tokens : List (Nat × Token)) :
    Performs (walk step mode c tokens) (LineArt.walk step mode c tokens) := by
  induction tokens using tokens_induction generalizing c with
  | nil => exact performs_pure c
  | invalid index token char rest ht =>
    rw [walk_cons_invalid step mode c index rest ht]
    simp only [walk, ht]
    exact performs_throw ⟨char, index⟩
  | valid index token rest ht ih =>
    rw [walk_cons_valid step mode c index rest ht]
    simp only [walk, ht]
    exact (ih (c.apply token step).1).after

variable (config : Config α) (pattern : String)

theorem performs_execute (start : Point α) (mode : Mode) :
    Performs (execute config start pattern mode) (LineArt.execute config start pattern mode) := by
  rw [execute_eq]
  apply Performs.after
  apply (performs_walk config.step mode (.start start) (tokenize pattern)).bind
  intro c
  exact (performs_pure c).after

theorem performs_startingPoint (start : Start α) :
    Performs (startingPoint config start pattern) (LineArt.startingPoint config start pattern) := by
  unfold startingPoint LineArt.startingPoint
  cases start.point? with
  | some p => exact performs_pure p
  | none =>
    apply (performs_execute config pattern .origin .measure).bind
    intro c
    exact performs_pure _

theorem performs_run (start : Start α) (mode : Mode) :
    Performs (run config start pattern mode) (LineArt.run config start pattern mode) := by
  apply (performs_startingPoint config pattern start).bind
  intro point
  exact performs_execute config pattern point mode

theorem performs_interpret (start : Start α) (mode : Mode) :
    Performs (interpret config start pattern mode)
      (LineArt.interpret config start pattern mode) := by
  apply (performs_run config pattern start mode).bind
  intro c
  exact performs_pure _

theorem performs_draw (start : Start α) :
    Performs (draw config start pattern) (LineArt.draw config start pattern) := by
  apply (performs_interpret config pattern start .draw).bind
  intro _
  exact performs_pure ()

theorem performs_measure (start : Start α) :
    Performs (measure config start pattern) (LineArt.measure config start pattern) := by
  apply (performs_run config pattern start .measure).bind
  intro c
  exact performs_pure c.bounds

end Surface

/-! ### Single operations -/

/-- What is done to a recording does not depend on what it holds: it ends as on an empty
one and appends what it would tell that one, which is what the trace says. -/
structure Surface.Independent (x : OnSurface α β) (t : Trace α β) : Prop where
  alone : ∀ r, x.run.run r
    = ((x.run.run .empty).1, r.append (x.run.run .empty).2.instructions)
  trace : x.run.run .empty = (t.outcome, ⟨t.instructions⟩)

theorem Surface.Performs.independent {x : OnSurface α β} {t : Trace α β} (h : Performs x t) :
    Independent x t := by
  have hempty : x.run.run .empty = (t.outcome, ⟨t.instructions⟩) := h .empty
  refine ⟨?_, hempty⟩
  intro r
  rw [hempty]
  exact h r

namespace Operation

/-- The settings in force after an operation. -/
def settings (config : Config α) : Operation α → Config α
  | setStep step => { config with step }
  | _ => config

/-- What is left of the content before an operation. -/
def keep (content : List (Instruction α)) : Operation α → List (Instruction α)
  | clear => []
  | _ => content

variable [Scalar α]

/-- What an operation gives and answers on its own: in a new session, on an empty surface. -/
def alone (op : Operation α) (config : Config α) : List (Instruction α) × Answer α :=
  let (s, answer) := (Session.new config).carryOut op
  (s.recording.instructions, answer)

/-- What operations give and answer each on its own, under the settings in force. -/
def eachAlone (config : Config α) : List (Operation α) → List (List (Instruction α) × Answer α)
  | [] => []
  | op :: ops => op.alone config :: eachAlone (op.settings config) ops

end Operation

namespace Session

/-- A session that goes on as an operation says, whatever was done before it. -/
structure GoesOn [Scalar α] (s : Session α) (op : Operation α) : Prop where
  config : (s.carryOut op).1.config = op.settings s.config
  content : (s.carryOut op).1.recording.instructions
    = op.keep s.recording.instructions ++ (op.alone s.config).1
  answer : (s.carryOut op).2 = (op.alone s.config).2

/-- What is done to the surface of a session is the run that its trace describes. -/
theorem onSurface_eq_perform (s : Session α) {x : Config α → OnSurface α β}
    {t : Config α → Trace α β} (h : ∀ config, Surface.Performs (x config) (t config))
    (answer : Except InvalidToken β → Answer α) :
    s.onSurface x answer = ((s.perform t).1, answer (s.perform t).2) := by
  have hrun := h s.config s.recording
  unfold onSurface
  rw [hrun]
  rfl

/-- An operation does this to the surface of any session, which is the run that the trace
describes. -/
structure RunsAs [Scalar α] (op : Operation α) (x : Config α → OnSurface α β)
    (t : Config α → Trace α β) (answer : Except InvalidToken β → Answer α) : Prop where
  on_surface : ∀ s : Session α, s.carryOut op = s.onSurface x answer
  performed : ∀ s : Session α, s.carryOut op = ((s.perform t).1, answer (s.perform t).2)

variable [Scalar α]

theorem runsAs_of_performs {op : Operation α} {x : Config α → OnSurface α β}
    {t : Config α → Trace α β} {answer : Except InvalidToken β → Answer α}
    (hop : ∀ s : Session α, s.carryOut op = s.onSurface x answer)
    (h : ∀ config, Surface.Performs (x config) (t config)) : RunsAs op x t answer where
  on_surface := hop
  performed s := (hop s).trans (s.onSurface_eq_perform h answer)

section Runs

variable (start : Start α) (pattern : String)

theorem runsAs_draw : RunsAs (.draw start pattern) (Surface.draw · start pattern)
    (LineArt.draw · start pattern) .drawn :=
  runsAs_of_performs (fun _ => rfl) fun config => Surface.performs_draw config pattern start

theorem runsAs_measure : RunsAs (.measure start pattern) (Surface.measure · start pattern)
    (LineArt.measure · start pattern) .measured :=
  runsAs_of_performs (fun _ => rfl) fun config => Surface.performs_measure config pattern start

theorem runsAs_interpret (mode : Mode) :
    RunsAs (.interpret start pattern mode) (Surface.interpret · start pattern mode)
      (LineArt.interpret · start pattern mode) .interpreted :=
  runsAs_of_performs (fun _ => rfl) fun config =>
    Surface.performs_interpret config pattern start mode

theorem runsAs_execute (point : Point α) (mode : Mode) :
    RunsAs (.execute point pattern mode) (Surface.execute · point pattern mode)
      (LineArt.execute · point pattern mode) .executed :=
  runsAs_of_performs (fun _ => rfl) fun config =>
    Surface.performs_execute config pattern point mode

theorem runsAs_tell (i : Instruction α) : RunsAs (.tell i) (fun _ => Surface.tell i)
    (fun _ => .emit [i]) fun _ => .silent :=
  runsAs_of_performs (fun _ => rfl) fun _ => Surface.performs_tell i

end Runs

variable (s : Session α)

theorem goesOn_of_runsAs {op : Operation α} {x : Config α → OnSurface α β}
    {t : Config α → Trace α β} {answer : Except InvalidToken β → Answer α}
    (h : RunsAs op x t answer) (hkeep : ∀ is, op.keep is = is)
    (hsettings : op.settings s.config = s.config) : s.GoesOn op := by
  have halone : op.alone s.config = ((t s.config).instructions, answer (t s.config).outcome) := by
    unfold Operation.alone
    rw [h.performed (new s.config)]
    rfl
  constructor
  · rw [h.performed, config_perform, hsettings]
  · rw [h.performed, instructions_perform, hkeep, halone]
  · rw [h.performed, outcome_perform, halone]

theorem goesOn (op : Operation α) : s.GoesOn op := by
  cases op with
  | draw start pattern => exact s.goesOn_of_runsAs (runsAs_draw start pattern) (fun _ => rfl) rfl
  | measure start pattern =>
    exact s.goesOn_of_runsAs (runsAs_measure start pattern) (fun _ => rfl) rfl
  | interpret start pattern mode =>
    exact s.goesOn_of_runsAs (runsAs_interpret start pattern mode) (fun _ => rfl) rfl
  | execute point pattern mode =>
    exact s.goesOn_of_runsAs (runsAs_execute pattern point mode) (fun _ => rfl) rfl
  | tell i => exact s.goesOn_of_runsAs (runsAs_tell i) (fun _ => rfl) rfl
  | setStep step => exact ⟨rfl, (List.append_nil _).symm, rfl⟩
  | clear => exact ⟨rfl, rfl, rfl⟩

/-! ### Whole sessions -/

theorem carryOutAll_cons (op : Operation α) (ops : List (Operation α)) :
    s.carryOutAll (op :: ops)
      = (((s.carryOut op).1.carryOutAll ops).1,
          (s.carryOut op).2 :: ((s.carryOut op).1.carryOutAll ops).2) := rfl

theorem carryOutAll_append (before after : List (Operation α)) :
    (s.carryOutAll (before ++ after)).1 = ((s.carryOutAll before).1.carryOutAll after).1 := by
  induction before generalizing s with
  | nil => rfl
  | cons op ops ih => exact ih (s.carryOut op).1

theorem answers_carryOutAll (ops : List (Operation α)) :
    (s.carryOutAll ops).2 = (Operation.eachAlone s.config ops).map Prod.snd := by
  induction ops generalizing s with
  | nil => rfl
  | cons op ops ih =>
    obtain ⟨hconfig, -, hanswer⟩ := s.goesOn op
    rw [carryOutAll_cons, ih, hconfig, hanswer]
    rfl

theorem config_carryOutAll (ops : List (Operation α)) :
    (s.carryOutAll ops).1.config = ops.foldl (fun c op => op.settings c) s.config := by
  induction ops generalizing s with
  | nil => rfl
  | cons op ops ih =>
    rw [carryOutAll_cons, ih, (s.goesOn op).config]
    rfl

theorem content_carryOutAll {ops : List (Operation α)} (h : .clear ∉ ops) :
    (s.carryOutAll ops).1.recording.instructions
      = s.recording.instructions ++ (Operation.eachAlone s.config ops).flatMap Prod.fst := by
  induction ops generalizing s with
  | nil => exact (List.append_nil _).symm
  | cons op ops ih =>
    obtain ⟨hconfig, hcontent, -⟩ := s.goesOn op
    rw [List.mem_cons, not_or] at h
    have hkeep : op.keep s.recording.instructions = s.recording.instructions := by
      cases op with
      | clear => exact absurd rfl h.1
      | _ => rfl
    rw [carryOutAll_cons, ih _ h.2, hconfig, hcontent, hkeep, List.append_assoc]
    rfl

theorem content_since_clear (before : List (Operation α)) {between : List (Operation α)}
    (h : .clear ∉ between) :
    (s.carryOutAll (before ++ .clear :: between)).1.recording.instructions
      = (Operation.eachAlone (before.foldl (fun c op => op.settings c) s.config)
          between).flatMap Prod.fst := by
  have hcleared := ((s.carryOutAll before).1.carryOut .clear).1.content_carryOutAll h
  rw [carryOutAll_append, carryOutAll_cons, hcleared, ← config_carryOutAll]
  rfl

end Session

/-! ### Independence -/

/-- The second pass of a run that was centered is a pass on its own: on any recording the
run appends what the first pass tells an empty one, then what the second does, and ends as
the second. -/
theorem Surface.run_of_resolved [Scalar α] (config : Config α) {start : Start α} (pattern : String)
    (mode : Mode) {point : Point α}
    (h : ((startingPoint config start pattern).run.run .empty).1 = .ok point) (r : Recording α) :
    (run config start pattern mode).run.run r
      = (((execute config point pattern mode).run.run .empty).1,
          r.append (((startingPoint config start pattern).run.run .empty).2.instructions
            ++ ((execute config point pattern mode).run.run .empty).2.instructions)) := by
  have hfirst := (performs_startingPoint config pattern start).independent.trace
  have hsecond := (performs_execute config pattern point mode).independent.trace
  have hpoint : (LineArt.startingPoint config start pattern).outcome = .ok point := by
    rwa [hfirst] at h
  rw [performs_run config pattern start mode r, hfirst, hsecond]
  unfold LineArt.run
  rw [Trace.bind_eq_andThen, Trace.outcome_andThen_of_ok _ hpoint,
    Trace.instructions_andThen_of_ok _ hpoint]

/-- A run appends to any recording what it tells an empty one and ends as it does there,
and the second pass of a centered run is a pass on its own.  So in a session of runs, direct
calls, changes of the step and clearings every answer is that of the operation on its own
under the settings in force, which only a change of the step changes; and the content since a
clearing is what the operations give each on its own, strung together. -/
theorem operations_are_independent (α : Type) [Scalar α] :
    (∀ (config : Config α) (pattern : String),
      (∀ start, Surface.Independent (Surface.draw config start pattern)
        (draw config start pattern)) ∧
      (∀ start, Surface.Independent (Surface.measure config start pattern)
        (measure config start pattern)) ∧
      (∀ start mode, Surface.Independent (Surface.interpret config start pattern mode)
        (interpret config start pattern mode)) ∧
      (∀ point mode, Surface.Independent (Surface.execute config point pattern mode)
        (execute config point pattern mode)) ∧
      ∀ start mode point,
        ((Surface.startingPoint config start pattern).run.run .empty).1 = .ok point →
        ∀ r, (Surface.run config start pattern mode).run.run r
          = (((Surface.execute config point pattern mode).run.run .empty).1,
              r.append (((Surface.startingPoint config start pattern).run.run .empty).2.instructions
                ++ ((Surface.execute config point pattern mode).run.run .empty).2.instructions))) ∧
    ∀ s : Session α,
      (∀ ops, (s.carryOutAll ops).2 = (Operation.eachAlone s.config ops).map Prod.snd) ∧
      (∀ ops, (s.carryOutAll ops).1.config = ops.foldl (fun c op => op.settings c) s.config) ∧
      (∀ ops, .clear ∉ ops →
        (s.carryOutAll ops).1.recording.instructions
          = s.recording.instructions ++ (Operation.eachAlone s.config ops).flatMap Prod.fst) ∧
      ∀ before between, .clear ∉ between →
        (s.carryOutAll (before ++ .clear :: between)).1.recording.instructions
          = (Operation.eachAlone (before.foldl (fun c op => op.settings c) s.config)
              between).flatMap Prod.fst := by
  constructor
  · intro config pattern
    refine ⟨?_, ?_, ?_, ?_, ?_⟩
    · intro start
      exact (Surface.performs_draw config pattern start).independent
    · intro start
      exact (Surface.performs_measure config pattern start).independent
    · intro start mode
      exact (Surface.performs_interpret config pattern start mode).independent
    · intro point mode
      exact (Surface.performs_execute config pattern point mode).independent
    · intro start mode point h r
      exact Surface.run_of_resolved config pattern mode h r
  · intro s
    refine ⟨s.answers_carryOutAll, s.config_carryOutAll, ?_, ?_⟩
    · intro ops h
      exact s.content_carryOutAll h
    · intro before between h
      exact s.content_since_clear before h

/-- A failed run inside open brackets, a clearing, a change of the step and a drawing that
jumps to a name bound before: what is left is the drawing alone at the new step.  A centered
bend starts its second pass afresh. -/
theorem operations_are_independent_after_failure :
    ((Session.new (.standard : Config Float32)).carryOutAll
        ([.draw (.ofPoint .origin) "a[5(3.#"] ++ .clear ::
          [.setStep (.splat 2), .draw (.ofPoint .origin) "A]."])).1.recording.instructions
      = (Operation.eachAlone (.standard : Config Float32)
          [.setStep (.splat 2), .draw (.ofPoint .origin) "A]."]).flatMap Prod.fst ∧
    ∀ r, (Surface.run (.standard : Config Float32) .centered "5." .draw).run.run r
      = (((Surface.execute (.standard : Config Float32) ⟨375, 400⟩ "5." .draw).run.run .empty).1,
          r.append
            (((Surface.startingPoint (.standard : Config Float32) .centered "5.").run.run
                .empty).2.instructions
              ++ ((Surface.execute (.standard : Config Float32) ⟨375, 400⟩ "5." .draw).run.run
                .empty).2.instructions)) := by
  obtain ⟨hruns, hsessions⟩ := operations_are_independent Float32
  obtain ⟨-, -, -, hcleared⟩ := hsessions (.new .standard)
  obtain ⟨-, -, -, -, hsecond⟩ := hruns .standard "5."
  constructor
  · exact hcleared _ _ (by simp)
  · exact hsecond .centered .draw ⟨375, 400⟩ (by decide +kernel)

end LineArt
