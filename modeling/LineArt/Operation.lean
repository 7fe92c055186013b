import LineArt.Session
import LineArt.Surface

/-!
# Operations of a session

One set of settings and one surface serve any number of operations: runs that succeed or
fail, direct calls of the surface, changes of the step and clearings.
-/

namespace LineArt

inductive Operation (α : Type) where
  | draw (start : Start α) (pattern : String)
  | measure (start : Start α) (pattern : String)
  | interpret (start : Start α) (pattern : String) (mode : Mode)
  | execute (start : Point α) (pattern : String) (mode : Mode)
  /-- A direct call of the surface. -/
  | tell (instruction : Instruction α)
  | setStep (step : Point α)
  | clear
deriving DecidableEq

/-- What an operation answers: a run its outcome, any other nothing. -/
inductive Answer (α : Type) where
  | drawn (outcome : Except InvalidToken Unit)
  | measured (outcome : Except InvalidToken (Bounds α))
  | interpreted (outcome : Except InvalidToken (Option (Bounds α)))
  | executed (outcome : Except InvalidToken (Cursor α))
  | silent

namespace Session

variable {α β : Type}

/-- The session after something was done to its surface under the settings in force. -/
def onSurface (s : Session α) (done : Config α → OnSurface α β)
    (answer : Except InvalidToken β → Answer α) : Session α × Answer α :=
  let (outcome, recording) := (done s.config).run.run s.recording
  ({ s with recording }, answer outcome)

variable [Scalar α]

def carryOut (s : Session α) : Operation α → Session α × Answer α
  | .draw start pattern => s.onSurface (Surface.draw · start pattern) .drawn
  | .measure start pattern => s.onSurface (Surface.measure · start pattern) .measured
  | .interpret start pattern mode =>
    s.onSurface (Surface.interpret · start pattern mode) .interpreted
  | .execute start pattern mode => s.onSurface (Surface.execute · start pattern mode) .executed
  | .tell i => s.onSurface (fun _ => Surface.tell i) fun _ => .silent
  | .setStep step => (s.setStep step, .silent)
  | .clear => (s.clear, .silent)

def carryOutAll (s : Session α) : List (Operation α) → Session α × List (Answer α)
  | [] => (s, [])
  | op :: ops =>
    let (next, answer) := s.carryOut op
    let (last, answers) := next.carryOutAll ops
    (last, answer :: answers)

end Session

end LineArt
