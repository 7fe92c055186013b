import LineArt.Run

/-!
# Walks and passes

How a walk over numbered tokens takes its first token and how it ends, and what
a pass adds to the walk it is made of.  The walk ends as `firstInvalid?` says:
with the first invalid token, or with the cursor after all tokens.
-/

namespace LineArt

variable {α β γ : Type}

namespace Trace

theorem outcome_andThen_of_ok {t : Trace α β} {b : β} (next : β → Trace α γ)
    (h : t.outcome = .ok b) : (t.andThen next).outcome = (next b).outcome := by
  simp [andThen, h]

theorem outcome_andThen_of_error {t : Trace α β} {fault : InvalidToken} (next : β → Trace α γ)
    (h : t.outcome = .error fault) : (t.andThen next).outcome = .error fault := by
  simp [andThen, h]

theorem instructions_andThen_of_ok {t : Trace α β} {b : β} (next : β → Trace α γ)
    (h : t.outcome = .ok b) :
    (t.andThen next).instructions = t.instructions ++ (next b).instructions := by
  simp [andThen, h]

theorem instructions_andThen_of_error {t : Trace α β} {fault : InvalidToken}
    (next : β → Trace α γ) (h : t.outcome = .error fault) :
    (t.andThen next).instructions = t.instructions := by
  simp [andThen, h]

theorem instructions_andThen_done (t : Trace α β) (f : β → γ) :
    (t.andThen fun b => done (f b)).instructions = t.instructions := by
  obtain ⟨is, outcome⟩ := t
  cases outcome with
  | error fault => rfl
  | ok b => exact List.append_nil is

theorem outcome_andThen_done (t : Trace α β) (f : β → γ) :
    (t.andThen fun b => done (f b)).outcome = t.outcome.map f := by
  obtain ⟨is, outcome⟩ := t
  cases outcome <;> rfl

end Trace

variable [Scalar α]

theorem walk_cons_invalid (step : Point α) (mode : Mode) (c : Cursor α) (index : Nat)
    {token : Token} {char : Char} (rest : List (Nat × Token))
    (h : token.invalid? = some char) :
    walk step mode c ((index, token) :: rest) = .fail ⟨char, index⟩ := by
  simp only [walk, h]

theorem walk_cons_valid (step : Point α) (mode : Mode) (c : Cursor α) (index : Nat)
    {token : Token} (rest : List (Nat × Token)) (h : token.invalid? = none) :
    walk step mode c ((index, token) :: rest)
      = .after ((c.apply token step).2.instructions mode (c.apply token step).1)
          (walk step mode (c.apply token step).1 rest) := by
  simp only [walk, h]

theorem firstInvalid?_cons_invalid (index : Nat) {token : Token} {char : Char}
    (rest : List (Nat × Token)) (h : token.invalid? = some char) :
    firstInvalid? ((index, token) :: rest) = some ⟨char, index⟩ := by
  simp only [firstInvalid?, h]

theorem firstInvalid?_cons_valid (index : Nat) {token : Token}
    (rest : List (Nat × Token)) (h : token.invalid? = none) :
    firstInvalid? ((index, token) :: rest) = firstInvalid? rest := by
  simp only [firstInvalid?, h]

/-- A walk ends, stops at an invalid token, or takes a valid one and goes on. -/
@[elab_as_elim]
theorem tokens_induction {motive : List (Nat × Token) → Prop} (nil : motive [])
    (invalid : ∀ index token char rest, token.invalid? = some char →
      motive ((index, token) :: rest))
    (valid : ∀ index token rest, token.invalid? = none → motive rest →
      motive ((index, token) :: rest)) (tokens : List (Nat × Token)) : motive tokens := by
  induction tokens with
  | nil => exact nil
  | cons head rest ih =>
    obtain ⟨index, token⟩ := head
    cases h : token.invalid? with
    | some char => exact invalid index token char rest h
    | none => exact valid index token rest h ih

theorem outcome_walk_of_invalid (step : Point α) (mode : Mode) (c : Cursor α)
    {tokens : List (Nat × Token)} {fault : InvalidToken}
    (h : firstInvalid? tokens = some fault) :
    (walk step mode c tokens).outcome = .error fault := by
  induction tokens using tokens_induction generalizing c with
  | nil => contradiction
  | invalid index token char rest ht =>
    rw [firstInvalid?_cons_invalid index rest ht] at h
    rw [walk_cons_invalid step mode c index rest ht]
    exact congrArg Except.error (Option.some.inj h)
  | valid index token rest ht ih =>
    rw [firstInvalid?_cons_valid index rest ht] at h
    rw [walk_cons_valid step mode c index rest ht, Trace.outcome_after]
    exact ih _ h

theorem outcome_walk_of_valid (step : Point α) (mode : Mode) (c : Cursor α)
    {tokens : List (Nat × Token)} (h : firstInvalid? tokens = none) :
    (walk step mode c tokens).outcome = .ok (c.applyAll (tokens.map Prod.snd) step) := by
  induction tokens using tokens_induction generalizing c with
  | nil => rfl
  | invalid index token char rest ht =>
    rw [firstInvalid?_cons_invalid index rest ht] at h
    contradiction
  | valid index token rest ht ih =>
    rw [firstInvalid?_cons_valid index rest ht] at h
    rw [walk_cons_valid step mode c index rest ht, Trace.outcome_after, ih _ h]
    rfl

theorem validate_eq_ok_iff (pattern : String) :
    validate pattern = .ok () ↔ firstInvalid? (tokenize pattern) = none := by
  unfold validate
  cases firstInvalid? (tokenize pattern) <;> simp

/-- A pass is its walk, between what opens and what closes it. -/
theorem execute_eq (config : Config α) (start : Point α) (pattern : String) (mode : Mode) :
    execute config start pattern mode
      = .after (prologue config mode start)
          ((walk config.step mode (.start start) (tokenize pattern)).andThen
            fun c => .after (epilogue mode) (.done c)) := by
  simp [execute, Trace.emit]

theorem execute_measure_eq (config : Config α) (start : Point α) (pattern : String) :
    execute config start pattern .measure
      = .after [.moveTo start] (walk config.step .measure (.start start) (tokenize pattern)) := by
  rw [execute_eq]
  exact congrArg _ (Trace.andThen_done _)

theorem outcome_execute (config : Config α) (start : Point α) (pattern : String) (mode : Mode) :
    (execute config start pattern mode).outcome
      = (walk config.step mode (.start start) (tokenize pattern)).outcome := by
  rw [execute_eq, Trace.outcome_after]
  cases h : (walk config.step mode (.start start) (tokenize pattern)).outcome with
  | error fault => exact Trace.outcome_andThen_of_error _ h
  | ok c => exact Trace.outcome_andThen_of_ok _ h

theorem outcome_execute_of_valid (config : Config α) (start : Point α) {pattern : String}
    (mode : Mode) (h : validate pattern = .ok ()) :
    (execute config start pattern mode).outcome
      = .ok ((Cursor.start start).applyAll ((tokenize pattern).map Prod.snd) config.step) := by
  rw [outcome_execute]
  exact outcome_walk_of_valid _ _ _ ((validate_eq_ok_iff pattern).1 h)

/-- An explicit start is the point it names; nothing is measured to find it. -/
theorem run_ofPoint (config : Config α) (point : Point α) (pattern : String) (mode : Mode) :
    run config (.ofPoint point) pattern mode = execute config point pattern mode := rfl

end LineArt
