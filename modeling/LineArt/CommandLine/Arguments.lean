import LineArt.Config
import LineArt.Decimal.Rounding
import LineArt.Symmetry

/-!
# Arguments

How the arguments of the command line are read.  They are taken from left to
right and the first fault decides, be it a wrong argument or a request for help.

A pattern may begin with a hyphen, so while no pattern has been given an unknown
argument with hyphens counts as a plain one: as the pattern, or as the value
that the option before it waits for.
-/

namespace LineArt.CommandLine

inductive Verb where
  | draw
  | measure
  | transform
deriving DecidableEq

inductive Format where
  | json
  | svg
deriving DecidableEq

inductive Flag where
  | x
  | y
  | config
  | step
  | canvasWidth
  | canvasHeight
  | color
  | width
  | transform
  | format
deriving DecidableEq

inductive Refusal where
  /-- The arguments are wrong. -/
  | usage
  /-- Help is asked for. -/
  | help
deriving DecidableEq

def Verb.name : Verb → String
  | draw => "draw"
  | measure => "measure"
  | transform => "transform"

def Verb.all : List Verb := [draw, measure, transform]

/-- The name of an option, without its hyphens. -/
def Flag.name : Flag → String
  | x => "x"
  | y => "y"
  | config => "config"
  | step => "step"
  | canvasWidth => "canvas-width"
  | canvasHeight => "canvas-height"
  | color => "color"
  | width => "width"
  | transform => "transform"
  | format => "format"

def Flag.running : List Flag :=
  [x, y, config, step, canvasWidth, canvasHeight, color, width, transform]

def Verb.flags : Verb → List Flag
  | draw => .format :: Flag.running
  | measure => Flag.running
  | transform => [.transform]

/-- Whether an option takes whatever argument follows it as its value. -/
def Flag.takesAny : Flag → Bool
  | x => true
  | y => true
  | _ => false

def Format.ofName? : String → Option Format
  | "json" => some json
  | "svg" => some svg
  | _ => none

/-! ### What a command has been given -/

structure Given where
  pattern : Option String := none
  x : Option Float32 := none
  y : Option Float32 := none
  config : Option String := none
  step : Option Float32 := none
  canvasWidth : Option Float32 := none
  canvasHeight : Option Float32 := none
  color : Option String := none
  width : Option Float32 := none
  symmetries : List Symmetry := []
  format : Option Format := none

/-- A value that is not given twice, if it can be read. -/
def once {β : Type} (before value : Option β) : Except Refusal (Option β) :=
  match before, value with
  | none, some b => .ok (some b)
  | _, _ => .error .usage

def path? (value : String) : Option String := if value.isEmpty then none else some value

namespace Given

def givePattern (g : Given) (value : String) : Except Refusal Given :=
  return { g with pattern := ← once g.pattern (some value) }

def giveTransform (g : Given) (value : String) : Except Refusal Given :=
  match Symmetry.ofName? value with
  | some s => return { g with symmetries := g.symmetries ++ [s] }
  | none => .error .usage

def give (g : Given) (flag : Flag) (value : String) : Except Refusal Given :=
  match flag with
  | .x => return { g with x := ← once g.x (floatOfText? value) }
  | .y => return { g with y := ← once g.y (floatOfText? value) }
  | .config => return { g with config := ← once g.config (path? value) }
  | .step => return { g with step := ← once g.step (floatOfText? value) }
  | .canvasWidth => return { g with canvasWidth := ← once g.canvasWidth (floatOfText? value) }
  | .canvasHeight => return { g with canvasHeight := ← once g.canvasHeight (floatOfText? value) }
  | .color => return { g with color := ← once g.color (some value) }
  | .width => return { g with width := ← once g.width (floatOfText? value) }
  | .transform => g.giveTransform value
  | .format => return { g with format := ← once g.format (Format.ofName? value) }

end Given

/-! ### Single arguments -/

inductive Argument where
  /-- Two hyphens alone: all after it is plain. -/
  | separator
  /-- An option, with the value attached to it, if any. -/
  | option (flag : Flag) (value : Option String)
  | help
  /-- A pattern, or the value of the option before it. -/
  | plain
  /-- An argument with hyphens that means nothing. -/
  | unknown
deriving DecidableEq

/-- The name and the attached value of an argument behind its two hyphens. -/
def splitOption (text : List Char) : List Char × Option String :=
  match text.dropWhile (· ≠ '=') with
  | [] => (text, none)
  | _ :: value => (text.takeWhile (· ≠ '='), some (String.ofList value))

/-- What an argument with hyphens is if no option has its name. -/
def unnamed (awaiting : Bool) : Argument := if awaiting then .plain else .unknown

/-- What an argument is behind two hyphens; `awaiting` tells whether the pattern is still to
come. -/
def classifyLong (verb : Verb) (awaiting : Bool) (text : List Char) : Argument :=
  let (name, value) := splitOption text
  match verb.flags.find? fun f => f.name.toList = name with
  | some flag => .option flag value
  | none =>
    if name = "help".toList then if value.isNone then .help else .unknown
    else unnamed awaiting

/-- What a cluster of letters is behind one hyphen: the only letter known is that of help. -/
def classifyShort (awaiting : Bool) (letters : List Char) : Argument :=
  if awaiting && letters.any (· ≠ 'h') then .plain
  else if letters.head? = some 'h' then .help
  else .unknown

def classify (verb : Verb) (awaiting : Bool) (argument : String) : Argument :=
  match argument.toList with
  | ['-', '-'] => .separator
  | '-' :: '-' :: text => classifyLong verb awaiting text
  | ['-'] => .plain
  | '-' :: letters => classifyShort awaiting letters
  | _ => .plain

/-! ### All arguments of a command -/

def readPlain (given : Given) : List String → Except Refusal Given
  | [] => .ok given
  | argument :: rest => do readPlain (← given.givePattern argument) rest

def readArguments (verb : Verb) (given : Given) : List String → Except Refusal Given
  | [] => .ok given
  | argument :: rest =>
    match classify verb given.pattern.isNone argument with
    | .separator => readPlain given rest
    | .option flag (some value) => do readArguments verb (← given.give flag value) rest
    | .option flag none =>
      match rest with
      | [] => .error .usage
      | value :: rest =>
        if flag.takesAny || classify verb given.pattern.isNone value = .plain then do
          readArguments verb (← given.give flag value) rest
        else .error .usage
    | .help => .error .help
    | .plain => do readArguments verb (← given.givePattern argument) rest
    | .unknown => .error .usage

end LineArt.CommandLine
