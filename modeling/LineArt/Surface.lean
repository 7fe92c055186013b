import LineArt.Run

/-!
# Runs on a surface

A surface that was drawn on before is drawn on further.  Here a run tells a recording
each instruction as it comes, the measuring pass of a centered start included, and ends
with a result or on an invalid token; what it had told by then stays.  `Surface.draw`,
`Surface.measure`, `Surface.interpret` and `Surface.execute` are the entry points of
`LineArt.Run` in this form.
-/

namespace LineArt

/-- What is done to a recording, and how it ends. -/
abbrev OnSurface (α β : Type) := ExceptT InvalidToken (StateM (Recording α)) β

namespace Surface

variable {α : Type}

def tell (i : Instruction α) : OnSurface α Unit := modify fun r => r.append [i]

def tellAll : List (Instruction α) → OnSurface α Unit
  | [] => return ()
  | i :: rest => do
    tell i
    tellAll rest

variable [Scalar α]

def walk (step : Point α) (mode : Mode) : Cursor α → List (Nat × Token) → OnSurface α (Cursor α)
  | cursor, [] => return cursor
  | cursor, (index, token) :: rest =>
    match token.invalid? with
    | some c => throw ⟨c, index⟩
    | none => do
      let (next, effect) := cursor.apply token step
      tellAll (effect.instructions mode next)
      walk step mode next rest

def execute (config : Config α) (start : Point α) (pattern : String) (mode : Mode) :
    OnSurface α (Cursor α) := do
  tellAll (prologue config mode start)
  let cursor ← walk config.step mode (.start start) (tokenize pattern)
  tellAll (epilogue mode)
  return cursor

def startingPoint (config : Config α) (start : Start α) (pattern : String) :
    OnSurface α (Point α) :=
  match start.point? with
  | some p => return p
  | none => do
    let cursor ← execute config Point.origin pattern .measure
    let offset := centering config cursor.bounds
    return ⟨start.x.resolve offset.x, start.y.resolve offset.y⟩

def run (config : Config α) (start : Start α) (pattern : String) (mode : Mode) :
    OnSurface α (Cursor α) := do
  let point ← startingPoint config start pattern
  execute config point pattern mode

def interpret (config : Config α) (start : Start α) (pattern : String) (mode : Mode) :
    OnSurface α (Option (Bounds α)) := do
  let cursor ← run config start pattern mode
  return match mode with
    | .draw => none
    | .measure => some cursor.bounds

def draw (config : Config α) (start : Start α) (pattern : String) : OnSurface α Unit := do
  let _ ← interpret config start pattern .draw
  return ()

def measure (config : Config α) (start : Start α) (pattern : String) :
    OnSurface α (Bounds α) := do
  let cursor ← run config start pattern .measure
  return cursor.bounds

end Surface

end LineArt
