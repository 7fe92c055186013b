import LineArt.CommandLine.Outcome

/-!
# The program

Reads the configuration file that the command line names, prints the outcome and
ends with its exit code.  The texts that others would write are left out.
-/

namespace LineArt.CommandLine

def Invocation.configPath? : Invocation → Option String
  | draw job _ => job.configPath
  | measure job => job.configPath
  | _ => none

/-- Why a file could not be read, in the words of the system. -/
def reasonText : IO.Error → String
  | .noFileOrDirectory .. => "No such file or directory (os error 2)"
  | error => error.toString

def readConfigFile (path : String) : IO (Except String String) := do
  try
    return .ok (← IO.FS.readFile path)
  catch error =>
    return .error (reasonText error)

def outcomeOnDisk (arguments : List String) : IO Outcome := do
  match (readCommandLine arguments).toOption.bind Invocation.configPath? with
  | none => return outcome .silent (fun _ => .error "") arguments
  | some path =>
    let text ← readConfigFile path
    return outcome .silent (fun _ => text) arguments

end LineArt.CommandLine

def main (arguments : List String) : IO UInt32 := do
  let outcome ← LineArt.CommandLine.outcomeOnDisk arguments
  IO.print outcome.stdout
  IO.eprint outcome.stderr
  return outcome.code
