import ChatMarkup.Chat.Config
import ChatMarkup.Chat.Session
import ChatMarkup.Command.Transcript

/-!
# The command that shows markup

Shows a file as a page or in an editor, runs its code on demand, and turns an edited page back into
markup.
-/

namespace ChatMarkup.Command.Render

/-- How the command is used. -/
def usage : List String :=
  ["Usage: lugha-render [--save] [--editor] [--css] <file.lml>",
    "       lugha-render --import <file.html>", "", "Options:",
    "  --save     Execute runnable lugha blocks against LUGHA_BACKEND_URL",
    "  --editor   Render the editable surface instead of the display one",
    "  --css      Prepend the syntax highlighting stylesheet",
    "  --import   Convert edited HTML back to LML"]

/-- What is asked of the command. -/
structure Options where
  save : Bool
  editor : Bool
  css : Bool
  importing : Bool
  file : String
deriving DecidableEq, Repr

namespace Options

/-- Nothing asked. -/
def none : Options := ⟨false, false, false, false, ""⟩

/-- Takes an argument.  There can be one file; an empty name is none yet. -/
def take? (options : Options) (arg : String) : Option Options :=
  if arg = "--save" then some { options with save := true }
  else if arg = "--editor" then some { options with editor := true }
  else if arg = "--css" then some { options with css := true }
  else if arg = "--import" then some { options with importing := true }
  else if "--".toList.isPrefixOf arg.toList then Option.none
  else if options.file = "" then some { options with file := arg }
  else Option.none

/-- The options that arguments ask for. -/
def ofArgs? (args : List String) : Option Options :=
  (args.foldlM take? none).bind fun options =>
    if options.file = "" then Option.none else some options

end Options

/-- The surroundings of the command: its files, the look-up of its variables, the world that the
settings lead to, how code is coloured, and the style sheet for the colours. -/
structure Surroundings where
  files : Files
  lookup : String → Option String
  world : Config → World
  highlight : Highlighter
  style : String

/-- The chat that the command works in. -/
def chat : String := "cli"

/-- What the command shows of a message: its view, its text if that has changed, and the messages
about its runs. -/
def showAll (around : Surroundings) (options : Options) (message : Message)
    (view : Option (View CodeBlock)) (room : Room) : Transcript :=
  .join (
    (if options.css then [.line ("<style>\n" ++ around.style ++ "</style>")] else [])
      ++ (view.toList.map fun view => .line (view.page around.highlight))
      ++ ((room.message? message.id).toList.filter fun kept => kept.text ≠ message.text).map
        (fun kept => .line kept.text)
      ++ (room.messages.filter fun kept => kept.sender = .tool).map fun kept => .line kept.text)

/-- Shows a source with some settings; also says what was asked of the world. -/
def showSource (around : Surroundings) (options : Options) (config : Config) (source : String) :
    Transcript × List Event :=
  let world := around.world config
  let session : Session := ⟨chat, config.execContext⟩
  let message := Message.ofSender ⟨world.newId 0, world.now []⟩ .assistant chat source
  let start := { ChatState.start (.ofMessages [message]) with made := 1 }
  let shown : Attempt (Option (View CodeBlock)) :=
    if options.editor then Session.ofMarkup (Session.renderEditor message)
    else session.renderOrFailure message options.save
  let (result, state) := shown.run.run world start
  match result with
  | .error _ => (.failure [], state.log)
  | .ok view => (showAll around options message view state.room, state.log)

/-- Runs the command; also says what was asked of the world. -/
def run (around : Surroundings) (args : List String) : Transcript × List Event :=
  match Options.ofArgs? args with
  | none => (.failure usage, [])
  | some options =>
    match around.files options.file with
    | .error _ => (.failure [], [])
    | .ok text =>
      if options.importing then
        match Html.importPage .default text with
        | .ok source => (.line source, [])
        | .error _ => (.failure [], [])
      else
        match Config.ofLookup around.lookup with
        | .error _ => (.failure [], [])
        | .ok config => showSource around options config text

end ChatMarkup.Command.Render
