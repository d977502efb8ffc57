import ChatMarkup.Command.Transcript
import ChatMarkup.Source.Document
import ChatMarkup.Source.Writer

/-!
# The command that checks markup

Says of each file whether it is markup, and on demand how it is written canonically.
-/

namespace ChatMarkup.Command.Validate

/-- The canonical form of a source. -/
def canonical (source : String) : Except MarkupError String :=
  (Source.read source).bind Source.write

/-- How the command is used. -/
def usage : List String :=
  ["Usage: lml-validate [--print] <file.lml>...", "", "Examples:", "  lml-validate answer.lml",
    "  lml-validate --print *.lml"]

/-- The lines about an error. -/
def report : MarkupError → List String
  | .parse line column message =>
    ["  Parse error at line " ++ toString line ++ ", column " ++ toString column ++ ":",
      "    " ++ message]
  | .shape found => ["  Code block is not a single string:", "    found " ++ found]
  | .tooDeep limit =>
    ["  Maximum nesting depth (" ++ toString limit ++ ") exceeded",
      "    Elements are nested too deeply"]
  | e => ["  " ++ e.message]

/-- Checks a file. -/
def check (files : Files) (print : Bool) (name : String) : Transcript :=
  match files name with
  | .error e => .failure ["✗ " ++ name ++ " could not be read: " ++ e.message]
  | .ok source =>
    match canonical source with
    | .error e => .failure (("✗ " ++ name ++ " has errors:") :: report e)
    | .ok text =>
      .line ("✓ " ++ name ++ " is valid") ++ if print then .line text else .silent

def printFlag : String := "--print"

/-- Runs the command.  The flag may stand anywhere; everything else names a file. -/
def run (files : Files) (args : List String) : Transcript :=
  if args = [] then .failure usage
  else
    .join ((args.filter (· ≠ printFlag)).map (check files (args.contains printFlag)))

end ChatMarkup.Command.Validate
