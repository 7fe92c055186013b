import LineArt.Run

/-!
# Sessions

A session holds the settings in force and the recording of one surface.  Every
run adds what it would record on its own, whether it succeeds or fails, and
depends on nothing else than its arguments and the settings.
-/

namespace LineArt

/-- The settings in force and what the surface was told so far. -/
structure Session (α : Type) where
  config : Config α
  recording : Recording α

namespace Session

variable {α β : Type}

def new (config : Config α) : Session α := ⟨config, .empty⟩

/-- The session after a run under the settings in force, with the outcome of the run. -/
def perform (s : Session α) (run : Config α → Trace α β) : Session α × Except InvalidToken β :=
  let trace := run s.config
  ({ s with recording := s.recording.append trace.instructions }, trace.outcome)

def record (s : Session α) (i : Instruction α) : Session α :=
  { s with recording := s.recording.append [i] }

def setStep (s : Session α) (step : Point α) : Session α :=
  { s with config := { s.config with step } }

def clear (s : Session α) : Session α := { s with recording := .empty }

@[simp] theorem config_perform (s : Session α) (run : Config α → Trace α β) :
    (s.perform run).1.config = s.config := rfl

@[simp] theorem instructions_perform (s : Session α) (run : Config α → Trace α β) :
    (s.perform run).1.recording.instructions
      = s.recording.instructions ++ (run s.config).instructions := rfl

@[simp] theorem outcome_perform (s : Session α) (run : Config α → Trace α β) :
    (s.perform run).2 = (run s.config).outcome := rfl

end Session

end LineArt
