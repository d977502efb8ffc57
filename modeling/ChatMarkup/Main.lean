import ChatMarkup.Command.Render
import ChatMarkup.Command.Validate

/-!
# The command line

The two commands on real files and variables.  The first argument names the command.  There is no
connection to a service, so a block that is to be run fails as if the service could not be reached.
-/

open ChatMarkup

/-- Reads a file. -/
def readFile (name : String) : IO (Except FileError String) := do
  try
    let bytes ← IO.FS.readBinFile name
    match textOfBytes? bytes.toList with
    | some text => return .ok text
    | none => return .error .notText
  catch
    | .noFileOrDirectory .. => return .error .missing
    | .inappropriateType _ code _ =>
      return .error (if code = 21 then .directory else .notDirectory)
    | .invalidArgument .. => return .error .nameTooLong
    | e => return .error (.other (toString e))

/-- The files with the given names. -/
def readFiles (names : List String) : IO Files := do
  let found ← names.mapM fun name => do
    return (name, ← readFile name)
  return fun name => (found.lookup name).getD (.error .missing)

/-- The variables that the settings are read from. -/
def readVariables : IO (String → Option String) := do
  let names := [Config.backendUrlName, Config.execContextName, Config.timeoutName]
  let found ← names.mapM fun name => do
    return (name, ← IO.getEnv name)
  return fun name => (found.lookup name).join

/-- A world without a service. -/
def offline : Config → World := fun config =>
  { exec := fun _ request => .error ((Post.ofExec request).unreachable config.backendUrl)
    action := fun _ request => .error ((Post.ofAction request).unreachable config.backendUrl)
    host := fun _ call room => room.perform call
    meanwhile := fun _ _ _ => []
    newId := fun made => "message-" ++ toString made
    now := fun _ => ⟨0, 0⟩ }

/-- Runs the command that the first argument names. -/
def runCommand (args : List String) : IO Transcript := do
  match args with
  | "lugha-render" :: args =>
    let around : Command.Render.Surroundings :=
      ⟨← readFiles args, ← readVariables, offline, Highlighter.plain, ""⟩
    return (Command.Render.run around args).1
  | "lml-validate" :: args => return Command.Validate.run (← readFiles args) args
  | _ => return .failure (Command.Validate.usage ++ [""] ++ Command.Render.usage)

def main (args : List String) : IO UInt32 := do
  let transcript ← runCommand args
  (← IO.getStdout).putStr transcript.output
  (← IO.getStderr).putStr transcript.errors
  return transcript.code.toUInt32
