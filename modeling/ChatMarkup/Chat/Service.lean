import ChatMarkup.Chat.Error
import ChatMarkup.Chat.Message
import ChatMarkup.Json.Reader

/-!
# The service that runs code

What a chat asks of the service and what it makes of the answers.
-/

namespace ChatMarkup

/-- Asks to run the code of a block. -/
structure ExecRequest where
  chat : String
  messageId : String
  code : String
deriving DecidableEq, Repr

/-- Asks to run a program for a button. -/
structure ActionRequest where
  code : String
  context : String
deriving DecidableEq, Repr

/-- What a run gives: the id and the text of the message about it, and the file it left. -/
structure ExecResult where
  id : String
  message : String
  filename : Option String
deriving DecidableEq, Repr

namespace ExecRequest

def toJson (request : ExecRequest) : Json :=
  .object [("chat_id", .string request.chat), ("message_id", .string request.messageId),
    ("code", .string request.code)]

end ExecRequest

namespace ActionRequest

def toJson (request : ActionRequest) : Json :=
  .object [("code", .string request.code), ("context", .string request.context)]

end ActionRequest

namespace ExecResult

/-- Reads a result; the last field may be missing. -/
def ofJson? (json : Json) : Option ExecResult :=
  (json.record?.bind (Record.fields? ["id", "message", "filename"] 2)).bind fun fields =>
    match fields with
    | [some id, some message, filename] => do
      let id ← id.text?
      let message ← message.text?
      let filename ← Message.optionalText? filename
      some ⟨id, message, filename⟩
    | _ => none

def toJson (result : ExecResult) : Json :=
  .object (
    [("id", .string result.id), ("message", .string result.message)]
      ++ result.filename.toList.map fun filename => ("filename", .string filename))

/-- Reads a result from the body of an answer. -/
def ofBody (body : String) : Except ChatError ExecResult :=
  match (Json.read? body).bind ofJson? with
  | some result => .ok result
  | none => .error (.execution "malformed execution response: ...")

end ExecResult

/-- The answer of a web service: its status, and its body as text. -/
structure Reply where
  status : Nat
  body : String
deriving DecidableEq, Repr

namespace Reply

/-- The text of the body: nothing where the status allows none, and no byte order mark. -/
def text (reply : Reply) : String :=
  if reply.status = 204 ∨ reply.status = 304 then ""
  else
    match reply.body.toList with
    | '\ufeff' :: body => String.ofList body
    | body => String.ofList body

end Reply

/-- A request to a web service. -/
structure Post where
  path : String
  body : Json

namespace Post

def execPath : String := "/exec"

def actionPath : String := "/action"

def ofExec (request : ExecRequest) : Post := ⟨execPath, request.toJson⟩

def ofAction (request : ActionRequest) : Post := ⟨actionPath, request.toJson⟩

/-- The error when no service answers at an address. -/
def unreachable (url : String) (post : Post) : ChatError :=
  .network ("error sending request for url (" ++ url ++ post.path ++ ")")

/-- What an answer to the request means.  Any status but success is a failed run. -/
def result (post : Post) (reply : Reply) : Except ChatError ExecResult :=
  if 200 ≤ reply.status ∧ reply.status < 300 then ExecResult.ofBody reply.text
  else
    .error (.execution
      (post.path ++ " returned " ++ toString reply.status ++ ": " ++ reply.text))

end Post

end ChatMarkup
