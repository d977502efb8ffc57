import ChatMarkup.Chat.Error
import ChatMarkup.Chat.Message

/-!
# Rooms

Where the messages of a chat are kept.
-/

namespace ChatMarkup

/-- What a chat asks of the place that keeps its messages. -/
inductive HostCall where
  | push (message : Message)
  | send (message : Message)
  | edit (id text : String)
  | refresh
deriving DecidableEq, Repr

/-- The messages of a chat, the ids of those that were sent on, and how often the chat was
refreshed. -/
structure Room where
  messages : List Message
  sent : List String
  refreshes : Nat
deriving DecidableEq, Repr

namespace Room

/-- A room with these messages. -/
def ofMessages (messages : List Message) : Room := ⟨messages, [], 0⟩

/-- The first message with an id. -/
def message? (room : Room) (id : String) : Option Message :=
  room.messages.find? fun message => message.id = id

/-- The messages with the text of the first one of this id changed; none if there is no such
message. -/
def edit? (id text : String) : List Message → Option (List Message)
  | [] => none
  | message :: messages =>
    if message.id = id then some ({ message with text := text } :: messages)
    else (edit? id text messages).map (message :: ·)

/-- Does what is asked. -/
def perform (room : Room) : HostCall → Except ChatError Room
  | .push message => .ok { room with messages := room.messages ++ [message] }
  | .send message => .ok { room with sent := room.sent ++ [message.id] }
  | .edit id text =>
    match edit? id text room.messages with
    | some messages => .ok { room with messages := messages }
    | none => .error (.host ("no message with id " ++ id))
  | .refresh => .ok { room with refreshes := room.refreshes + 1 }

end Room

end ChatMarkup
