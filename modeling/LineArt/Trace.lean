import LineArt.Instruction
import LineArt.Token

/-!
# Traces

A trace is what one run leaves behind: the instructions it gave, and how it
ended.  A run that meets an invalid token stops there and keeps the instructions
it gave before.  Traces compose: the instructions are strung together, and a
failed trace ends the composition.
-/

namespace LineArt

/-- The instructions of a run, with its result or the token it failed on. -/
structure Trace (α β : Type) where
  instructions : List (Instruction α)
  outcome : Except InvalidToken β

namespace Trace

variable {α β γ δ : Type}

def done (b : β) : Trace α β := ⟨[], .ok b⟩

def fail (fault : InvalidToken) : Trace α β := ⟨[], .error fault⟩

def after (before : List (Instruction α)) (t : Trace α β) : Trace α β :=
  ⟨before ++ t.instructions, t.outcome⟩

def emit (is : List (Instruction α)) : Trace α Unit := after is (done ())

def andThen (t : Trace α β) (next : β → Trace α γ) : Trace α γ :=
  match t.outcome with
  | .ok b => after t.instructions (next b)
  | .error fault => ⟨t.instructions, .error fault⟩

instance : Monad (Trace α) where
  pure := done
  bind := andThen

@[simp] theorem pure_eq_done (b : β) : (pure b : Trace α β) = done b := rfl

@[simp] theorem bind_eq_andThen (t : Trace α β) (next : β → Trace α γ) :
    t >>= next = t.andThen next := rfl

@[simp] theorem after_nil (t : Trace α β) : after [] t = t := rfl

@[simp] theorem after_after (xs ys : List (Instruction α)) (t : Trace α β) :
    after xs (after ys t) = after (xs ++ ys) t := by
  simp [after]

@[simp] theorem instructions_after (xs : List (Instruction α)) (t : Trace α β) :
    (after xs t).instructions = xs ++ t.instructions := rfl

@[simp] theorem outcome_after (xs : List (Instruction α)) (t : Trace α β) :
    (after xs t).outcome = t.outcome := rfl

@[simp] theorem done_andThen (b : β) (next : β → Trace α γ) : (done b).andThen next = next b := rfl

@[simp] theorem fail_andThen (fault : InvalidToken) (next : β → Trace α γ) :
    (fail fault : Trace α β).andThen next = fail fault := rfl

@[simp] theorem andThen_done (t : Trace α β) : t.andThen done = t := by
  obtain ⟨is, outcome⟩ := t
  cases outcome <;> simp [andThen, after, done]

@[simp] theorem after_andThen (xs : List (Instruction α)) (t : Trace α β)
    (next : β → Trace α γ) : (after xs t).andThen next = after xs (t.andThen next) := by
  obtain ⟨is, outcome⟩ := t
  cases outcome <;> simp [andThen, after]

theorem andThen_andThen (t : Trace α β) (next : β → Trace α γ) (last : γ → Trace α δ) :
    (t.andThen next).andThen last = t.andThen fun b => (next b).andThen last := by
  obtain ⟨is, outcome⟩ := t
  cases outcome with
  | error fault => rfl
  | ok b =>
    change (after is (next b)).andThen last = after is ((next b).andThen last)
    exact after_andThen is (next b) last

end Trace

end LineArt
