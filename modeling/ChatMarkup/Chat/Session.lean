import ChatMarkup.Chat.Queue
import ChatMarkup.Chat.Stream
import ChatMarkup.Html.Import
import ChatMarkup.View.Page

/-!
# Chat sessions

What a user can do in a chat: look at messages, run their code, click their buttons, edit them, and
send new ones.
-/

namespace ChatMarkup

/-- A chat, and the context in which its buttons act. -/
structure Session where
  chat : String
  context : String
deriving DecidableEq, Repr

namespace Session

/-- The chat of a message; one without a chat is in this one. -/
def chatOf (session : Session) (message : Message) : String :=
  message.chat.getD session.chat

/-- A result of the markup layer. -/
def ofMarkup {α : Type} (result : Except MarkupError α) : Attempt α :=
  ExceptT.mk (pure (result.mapError ChatError.markup))

/-! ## Looking at messages -/

/-- Shows a message; a blank one shows nothing.  Saving also runs its code and, if that has stamped
file names, keeps the message with them. -/
def render (session : Session) (message : Message) (save : Bool) :
    Attempt (Option (View CodeBlock)) := do
  if !message.hasContent then return none
  let tree ← ofMarkup (Source.read message.text)
  let state ← getThe ChatState
  let (rendering, state) := state.render (.display save) message.id tree
  set state
  let view ← ofMarkup rendering.view
  let drained ← Queue.drain (session.chatOf message) message.id rendering.queued tree
  let stamped ← ExceptT.mk (pure drained.outcome)
  if stamped then
    let source ← ofMarkup (Source.write drained.tree)
    Act.host (.edit message.id source)
    Act.host .refresh
  return some view

/-- Shows a message, or the error in place of one that is no markup. -/
def renderOrFailure (session : Session) (message : Message) (save : Bool) :
    Attempt (Option (View CodeBlock)) :=
  ExceptT.mk (do
    match ← (session.render message save).run with
    | .ok view => pure (.ok view)
    | .error e => pure (if e.isParse then .ok (some (.failure e.message)) else .error e))

/-- Shows a message in an editor; a blank one shows nothing. -/
def renderEditor (message : Message) : Except MarkupError (Option (View CodeBlock)) :=
  if message.hasContent then
    (Source.read message.text).bind fun tree =>
      (Rendering.render .editor .empty tree).view.map some
  else .ok none

/-! ## Code blocks -/

/-- Collapses a block or opens it, and says which; none for a block that is not known. -/
def toggle (id : String) (key : BlockKey) : Act (Option Bool) :=
  modifyGet fun state => state.toggle id key

/-- Switches an activity of a block on or off. -/
def setBusy (id : String) (key : BlockKey) (activity : Activity) (busy : Bool) :
    Attempt Unit := do
  let known ← modifyGetThe ChatState fun state => state.setBusy id key activity busy
  if !known then throw (.unknownBlock key.token)

/-- The code of a block that is being copied from now on. -/
def copyCode (id : String) (key : BlockKey) : Attempt String := do
  setBusy id key .copying true
  return key.code

/-- Forgets what is remembered of the blocks of a message. -/
def forget (id : String) : Act Unit :=
  modify fun state => state.forget id

/-- Runs a block.  It is busy while the service runs its code. -/
def runBlock (session : Session) (message : Message) (key : BlockKey) : Attempt Message := do
  setBusy message.id key .running true
  let chat := session.chatOf message
  let result ← ExceptT.lift (Act.exec ⟨chat, message.id, key.code⟩)
  modifyThe ChatState fun state => (state.setBusy message.id key .running false).2
  let tool ←
    match result with
    | .ok result => Act.toolMessage chat result
    | .error (.execution reason) => Act.failureMessage chat reason
    | .error e => throw e
  Act.host (.push tool)
  return tool

/-! ## Buttons -/

/-- Runs what a button says. -/
def runAction (session : Session) (onclick : String) : Attempt Message := do
  match ← ExceptT.lift (Act.action ⟨Message.entryPoint onclick, session.context⟩) with
  | .ok result =>
    let tool ← Act.toolMessage session.chat result
    Act.host (.push tool)
    Act.host (.send tool)
    return tool
  | .error (.execution reason) =>
    let report ← Act.failureMessage session.chat reason
    Act.host (.push report)
    return report
  | .error e => throw e

/-- The attributes of a button. -/
def button? : Node → Option (Option (List Attribute))
  | .element .button _ attributes _ => some attributes
  | _ => none

/-- Clicks a button; one that says nothing does nothing. -/
def click (session : Session) (message : Message) (node : Nat) : Attempt (Option Message) := do
  let tree ← ofMarkup (Source.read message.text)
  match (tree.findNode node).bind button? with
  | none => throw (.unknownNode node "button")
  | some attributes =>
    match View.attributeText? attributes "onclick" with
    | some onclick => some <$> session.runAction onclick
    | none => return none

/-! ## Edits -/

/-- Keeps a new text of a message. -/
def saveText (id source : String) : Attempt String := do
  Act.host (.edit id source)
  Act.host .refresh
  return source

/-- Keeps a message as its page was edited. -/
def saveEdit (id page : String) : Attempt String := do
  let source ← ofMarkup (Html.importPage .default page)
  let _ ← ofMarkup (Source.read source)
  saveText id source

/-- The tree with other code in a block; none if the id is not that of a block. -/
def replaceCode? (tree : Node) (node : Nat) (code : String) : Option Node :=
  if (tree.findNode node).any Node.isCode then
    tree.updateElement node fun element => { element with body := some (.block [.string code]) }
  else none

/-- Keeps a message with other code in one of its blocks. -/
def saveCodeEdit (message : Message) (node : Nat) (code : String) : Attempt String := do
  let tree ← ofMarkup (Source.read message.text)
  match replaceCode? tree node code with
  | none => throw (.unknownNode node "code")
  | some tree =>
    let source ← ofMarkup (Source.write tree)
    saveText message.id source

/-! ## New messages -/

/-- Sends what a user has written, unless it is blank. -/
def sendPrompt (session : Session) (text : String) : Attempt (Option Message) := do
  if isBlankText text then return none
  let birth ← Act.birth
  let message := Message.ofSender birth .user session.chat (Message.paragraph text)
  Act.host (.send message)
  return some message

/-- A reply after its stream. -/
structure Reply where
  message : Message
  outcome : Except ChatError StreamOutcome
  view : Option (View CodeBlock)

/-- Shows the texts of a reply as they come; one that cannot be shown leaves the last view. -/
def previewAll (id : String) (texts : List String) (view : Option (View CodeBlock)) :
    Act (Option (View CodeBlock)) :=
  match texts with
  | [] => pure view
  | text :: texts => do
    match ← modifyGetThe ChatState fun state => state.preview id text with
    | .ok (some shown) => previewAll id texts (some shown)
    | _ => previewAll id texts view

/-- Streams a reply into the chat.  It is shown as it grows; once it is complete, it is shown as
it is saved. -/
def streamReply (session : Session) (items : List StreamItem) (schedule : List Turn) :
    Act Reply := do
  let birth ← Act.birth
  let reply := Message.streamingReply birth (some session.chat)
  match ← (Act.host (.push reply)).run with
  | .error e => pure ⟨reply, .error e, none⟩
  | .ok () =>
    let streamed := (Streaming.start reply items).play schedule
    let message := streamed.message
    let view ← previewAll message.id streamed.shown none
    match ← (Act.host (.edit message.id message.text)).run with
    | .error e => pure ⟨message, .error e, view⟩
    | .ok () =>
      match streamed.result with
      | .ok .completed =>
        match ← (session.renderOrFailure message true).run with
        | .ok (some shown) => pure ⟨message, .ok .completed, some shown⟩
        | .ok none => pure ⟨message, .ok .completed, view⟩
        | .error e => pure ⟨message, .error e, view⟩
      | outcome => pure ⟨message, outcome, view⟩

end Session

end ChatMarkup
