import ChatMarkup.Json.Basic
import ChatMarkup.Source.Quoted
import ChatMarkup.Text.Blank
import ChatMarkup.Time.Instant

/-!
# Messages

A turn of a chat.  Its text is markup; it grows while it is streamed.
-/

namespace ChatMarkup

/-- Whose turn it is. -/
inductive Sender where
  | user
  | assistant
  | tool
deriving DecidableEq, Repr

namespace Sender

def name : Sender → String
  | user => "user"
  | assistant => "assistant"
  | tool => "tool"

def ofName? (name : String) : Option Sender :=
  [user, assistant, tool].find? fun sender => sender.name = name

end Sender

/-- A turn of a chat. -/
structure Message where
  id : String
  sender : Sender
  text : String
  chat : Option String
  createdAt : Instant
  transient : Bool
  streaming : Bool
deriving DecidableEq, Repr

/-- What is new about a new message: its id and its time. -/
structure Birth where
  id : String
  createdAt : Instant
deriving DecidableEq, Repr

namespace Message

/-- A message of its own, in a chat. -/
def ofSender (birth : Birth) (sender : Sender) (chat text : String) : Message :=
  ⟨birth.id, sender, text, some chat, birth.createdAt, false, false⟩

/-- The empty message that a stream will fill. -/
def streamingReply (birth : Birth) (chat : Option String) : Message :=
  ⟨birth.id, .assistant, "", chat, birth.createdAt, true, true⟩

/-- Whether there is anything to show. -/
def hasContent (message : Message) : Bool :=
  !isBlankText message.text

theorem hasContent_of_blank {message : Message} (h : isBlankText message.text = true) :
    message.hasContent = false := by
  rw [hasContent, h]
  rfl

theorem hasContent_of_not_blank {message : Message} (h : isBlankText message.text = false) :
    message.hasContent = true := by
  rw [hasContent, h]
  rfl

/-- A document with one paragraph of plain text. -/
def paragraph (text : String) : String :=
  "p \x7b " ++ Source.quote text ++ " \x7d"

/-- The report of code that failed. -/
def failureReport (reason : String) : String :=
  paragraph ("Execution failed: " ++ reason)

/-- A program that does what a button says. -/
def entryPoint (onclick : String) : String :=
  "fun main(): unit \x7b\n " ++ onclick ++ "\n\x7d"

/-! ## Messages as JSON -/

/-- A text, if it is there and not null. -/
def optionalText? : Option Json → Option (Option String)
  | none => some none
  | some .null => some none
  | some json => json.text?.map some

/-- A flag that is off when it is not there. -/
def flag? : Option Json → Option Bool
  | none => some false
  | some json => json.bool?

/-- A sender, by its name or as an object with the name alone. -/
def sender? : Json → Option Sender
  | .string name => Sender.ofName? name
  | .object [(name, .null)] => Sender.ofName? name
  | _ => none

/-- The names of the fields in their order. -/
def fieldNames : List String :=
  ["id", "sender", "message", "chat_id", "created_at", "transient", "streaming"]

/-- Reads a message; the last two fields may be missing. -/
def ofJson? (json : Json) : Option Message :=
  (json.record?.bind (Record.fields? fieldNames 5)).bind fun fields =>
    match fields with
    | [some id, some sender, some text, chat, some createdAt, transient, streaming] => do
      let id ← id.text?
      let sender ← sender? sender
      let text ← text.text?
      let chat ← optionalText? chat
      let createdAt ← createdAt.text?.bind Instant.read?
      let transient ← flag? transient
      let streaming ← flag? streaming
      some ⟨id, sender, text, chat, createdAt, transient, streaming⟩
    | _ => none

def toJson (message : Message) : Json :=
  .object (
    [("id", .string message.id), ("sender", .string message.sender.name),
      ("message", .string message.text)]
      ++ (message.chat.toList.map fun chat => ("chat_id", .string chat))
      ++ [("created_at", .string message.createdAt.write),
        ("transient", .bool message.transient), ("streaming", .bool message.streaming)])

end Message

end ChatMarkup
