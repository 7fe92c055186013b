import LineArt.CommandLine.Invocation
import LineArt.Forms.Instruction
import LineArt.Forms.Settings
import LineArt.Run
import LineArt.Svg
import LineArt.Text.Quoted

/-!
# Outcomes

What the program prints and how it ends.  The configuration is read before the
pattern is run, and what a failed run had drawn is not printed.  Some texts are
written by others, the argument parser and the JSON reader; an outcome depends on
how they are worded.
-/

namespace LineArt.CommandLine

/-- What is printed on the two outputs, and the exit code. -/
structure Outcome where
  code : UInt32
  stdout : String
  stderr : String
deriving DecidableEq

/-- The texts that others write. -/
structure Wording where
  /-- Help, or what is wrong with the arguments. -/
  refusal : Refusal → List String → String
  /-- What is wrong, in one line, with a text that is no configuration. -/
  unreadable : String → String

def Wording.silent : Wording := ⟨fun _ _ => "", fun _ => ""⟩

inductive Failure where
  | openConfig (path reason : String)
  | parseConfig (path text : String)
  /-- The pattern, as it was run, holds an invalid token. -/
  | pattern (verb : Verb) (text : String) (fault : InvalidToken)

def causedBy (what cause : String) : String := what ++ "\n\nCaused by:\n    " ++ cause ++ "\n"

def Failure.message (words : Wording) : Failure → String
  | openConfig path reason => causedBy ("Error: open config '" ++ path ++ "'") reason
  | parseConfig path text =>
    causedBy ("Error: parse config '" ++ path ++ "'") (words.unreadable text)
  | pattern verb text fault =>
    causedBy ("Error: " ++ verb.name ++ " pattern '" ++ text ++ "'") fault.message

abbrev Files := String → Except String String

namespace Job

def fileConfig (job : Job) (files : Files) : Except Failure (Config Float32) :=
  match job.configPath with
  | none => .ok .standard
  | some path =>
    match files path with
    | .error reason => .error (.openConfig path reason)
    | .ok text => (Json.decode text).mapError fun _ => .parseConfig path text

def config (job : Job) (files : Files) : Except Failure (Config Float32) :=
  (job.fileConfig files).map job.overrides.apply

def transformed (job : Job) : String := Symmetry.applyAll job.symmetries job.pattern

/-- Runs a job; the result comes with the settings and all instructions. -/
def perform {β : Type} (job : Job) (verb : Verb) (files : Files)
    (run : Config Float32 → Start Float32 → String → Trace Float32 β) :
    Except Failure (Config Float32 × Recording Float32 × β) := do
  let config ← job.config files
  let trace := run config job.start job.transformed
  let result ← trace.outcome.mapError (.pattern verb job.transformed)
  return (config, ⟨trace.instructions⟩, result)

end Job

def Format.print (format : Format) (config : Config Float32) (r : Recording Float32) : String :=
  match format with
  | json => (Json.Form.write r.instructions).prettyText
  | svg => String.ofList (Svg.document config r)

def versionText : String := "cancan 0.1.0"

def Invocation.output (files : Files) : Invocation → Except Failure String
  | draw job format => do
    let (config, recording, _) ← job.perform .draw files LineArt.draw
    return format.print config recording
  | measure job => do
    let (_, _, bounds) ← job.perform .measure files LineArt.measure
    return (Json.Form.write bounds).prettyText
  | transform symmetries pattern => return Symmetry.applyAll symmetries pattern
  | version => return versionText

def Invocation.outcome (words : Wording) (files : Files) (invocation : Invocation) : Outcome :=
  match invocation.output files with
  | .ok text => ⟨0, text ++ "\n", ""⟩
  | .error failure => ⟨1, "", failure.message words⟩

def Refusal.outcome (words : Wording) (arguments : List String) : Refusal → Outcome
  | help => ⟨0, words.refusal .help arguments, ""⟩
  | usage => ⟨2, "", words.refusal .usage arguments⟩

def outcome (words : Wording) (files : Files) (arguments : List String) : Outcome :=
  match readCommandLine arguments with
  | .ok invocation => invocation.outcome words files
  | .error refusal => refusal.outcome words arguments

end LineArt.CommandLine
