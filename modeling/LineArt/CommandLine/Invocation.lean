import LineArt.CommandLine.Arguments

/-!
# Invocations

What a command line asks for: to draw or to measure a pattern under certain
settings, to change the text of a pattern, or to name the program's version.
-/

namespace LineArt.CommandLine

/-- The settings that a command line puts over those of the configuration file. -/
structure Overrides where
  step : Option Float32
  canvasWidth : Option Float32
  canvasHeight : Option Float32
  color : Option String
  width : Option Float32
deriving DecidableEq

structure Job where
  pattern : String
  symmetries : List Symmetry
  start : Start Float32
  configPath : Option String
  overrides : Overrides
deriving DecidableEq

inductive Invocation where
  | draw (job : Job) (format : Format)
  | measure (job : Job)
  | transform (symmetries : List Symmetry) (pattern : String)
  | version
deriving DecidableEq

/-- The settings with those given on the command line put over them. -/
def Overrides.apply (o : Overrides) (config : Config Float32) : Config Float32 where
  step := (o.step.map Point.splat).getD config.step
  canvas := ⟨o.canvasWidth.getD config.canvas.x, o.canvasHeight.getD config.canvas.y⟩
  strokeColor := o.color.getD config.strokeColor
  strokeWidth := o.width.getD config.strokeWidth

/-- One axis of the start: where it is not given, the pattern is centered. -/
def coord : Option Float32 → Coord Float32
  | some v => .fixed v
  | none => .centered

namespace Given

def overrides (g : Given) : Overrides where
  step := g.step
  canvasWidth := g.canvasWidth
  canvasHeight := g.canvasHeight
  color := g.color
  width := g.width

def job (g : Given) (pattern : String) : Job where
  pattern
  symmetries := g.symmetries
  start := ⟨coord g.x, coord g.y⟩
  configPath := g.config
  overrides := g.overrides

/-- What a command asks for with what was given; a pattern is needed, and for a change of the
text at least one transform. -/
def invocation (g : Given) (verb : Verb) : Except Refusal Invocation :=
  match g.pattern with
  | none => .error .usage
  | some pattern =>
    match verb with
    | .draw => .ok (.draw (g.job pattern) (g.format.getD .json))
    | .measure => .ok (.measure (g.job pattern))
    | .transform =>
      if g.symmetries.isEmpty then .error .usage else .ok (.transform g.symmetries pattern)

end Given

def helpWord : String := "help"

def helpOn (commands : List String) : Refusal :=
  match commands with
  | [] => .help
  | [name] => if name = helpWord || (Verb.all.any fun v => v.name = name) then .help else .usage
  | _ => .usage

def withoutCommand (argument : String) : Except Refusal Invocation :=
  match argument.toList with
  | '-' :: 'V' :: _ => .ok .version
  | '-' :: 'h' :: _ => .error .help
  | _ =>
    if argument = "--version" then .ok .version
    else if argument = "--help" then .error .help
    else .error .usage

def readCommandLine : List String → Except Refusal Invocation
  | [] => .error .usage
  | command :: arguments =>
    match Verb.all.find? fun v => v.name = command with
    | some verb => do (← readArguments verb {} arguments).invocation verb
    | none => if command = helpWord then .error (helpOn arguments) else withoutCommand command

end LineArt.CommandLine
