import ChatMarkup.Chat.Room
import ChatMarkup.Chat.Service
import ChatMarkup.Source.Document
import ChatMarkup.View.Rendering

/-!
# Chats and the world around them

What a chat remembers, what it asks of the world, and what the world can do in between.  The world
is any function of what was asked before, so that a statement about all worlds is one about all
scripts of answers and failures.
-/

namespace ChatMarkup

/-- Something that was asked of the world, or the blocks that were shown while code was running. -/
inductive Event where
  | host (call : HostCall)
  | exec (request : ExecRequest)
  | action (request : ActionRequest)
  | shown (blocks : List CodeBlock)
deriving DecidableEq, Repr

/-- What a user can do while code is running. -/
inductive Intervention where
  | render (message : Message)
  | toggle (id : String) (key : BlockKey)
  | setCopying (id : String) (key : BlockKey) (busy : Bool)
  | forget (id : String)
deriving DecidableEq, Repr

/-- The world around a chat: the answers of the service and of the place that keeps the messages,
what happens while code is running, ids for new messages, and the time. -/
structure World where
  exec : List Event → ExecRequest → Except ChatError ExecResult
  action : List Event → ActionRequest → Except ChatError ExecResult
  host : List Event → HostCall → Room → Except ChatError Room
  meanwhile : List Event → ExecRequest → Room → List Intervention
  newId : Nat → String
  now : List Event → Instant

/-- What a chat remembers: its room, the block tables of its messages, what was asked so far, and
how many messages it has made. -/
structure ChatState where
  room : Room
  tables : List (String × BlockTable)
  log : List Event
  made : Nat

namespace ChatState

def start (room : Room) : ChatState := ⟨room, [], [], 0⟩

/-- The block table of a message; an empty one if none is remembered. -/
def table (state : ChatState) (id : String) : BlockTable :=
  (state.tables.lookup id).getD .empty

/-- Remembers the block table of a message. -/
def setTable (state : ChatState) (id : String) (table : BlockTable) : ChatState :=
  { state with tables := (id, table) :: state.tables.filter fun entry => entry.1 ≠ id }

/-- Forgets the block table of a message. -/
def forget (state : ChatState) (id : String) : ChatState :=
  { state with tables := state.tables.filter fun entry => entry.1 ≠ id }

/-- Notes an event. -/
def note (state : ChatState) (event : Event) : ChatState :=
  { state with log := state.log ++ [event] }

/-- Renders the tree of a message with its block table. -/
def render (state : ChatState) (mode : Mode) (id : String) (tree : Node) :
    Rendering × ChatState :=
  let rendering := Rendering.render mode (state.table id) tree
  (rendering, state.setTable id rendering.table)

/-- Shows a message without saving it; a blank one shows nothing. -/
def preview (state : ChatState) (id text : String) :
    Except MarkupError (Option (View CodeBlock)) × ChatState :=
  if isBlankText text then (.ok none, state)
  else
    match Source.read text with
    | .error e => (.error e, state)
    | .ok tree =>
      let (rendering, state) := state.render (.display false) id tree
      (rendering.view.map some, state)

/-- Collapses a block or opens it, and says which; none for a block that is not known. -/
def toggle (state : ChatState) (id : String) (key : BlockKey) : Option Bool × ChatState :=
  let (collapsed, table) := (state.table id).toggle key
  (collapsed, state.setTable id table)

/-- Switches an activity of a block on or off; the answer says whether the block is known. -/
def setBusy (state : ChatState) (id : String) (key : BlockKey) (activity : Activity)
    (busy : Bool) : Bool × ChatState :=
  let (known, table) := (state.table id).setBusy key activity busy
  (known, state.setTable id table)

/-- Does what a user does while code is running. -/
def intervene (state : ChatState) : Intervention → ChatState
  | .render message =>
    match state.preview message.id message.text with
    | (.ok (some view), state) => state.note (.shown view.blocks)
    | (_, state) => state
  | .toggle id key => (state.toggle id key).2
  | .setCopying id key busy => (state.setBusy id key .copying busy).2
  | .forget id => state.forget id

end ChatState

/-! ## Acting in the world -/

/-- What a chat does in the world. -/
abbrev Act := ReaderT World (StateM ChatState)

/-- What a chat does in the world until something fails. -/
abbrev Attempt := ExceptT ChatError Act

namespace Act

/-- Asks something of the place that keeps the messages. -/
def host (call : HostCall) : Attempt Unit :=
  ExceptT.mk (do
    let world ← read
    let state ← get
    set (state.note (.host call))
    match world.host state.log call state.room with
    | .ok room =>
      modify fun state => { state with room := room }
      pure (.ok ())
    | .error e => pure (.error e))

/-- Asks the service to run the code of a block.  What a user does in the meantime comes before the
answer. -/
def exec (request : ExecRequest) : Act (Except ChatError ExecResult) := do
  let world ← read
  let state ← get
  let interventions := world.meanwhile state.log request state.room
  set (interventions.foldl ChatState.intervene (state.note (.exec request)))
  pure (world.exec state.log request)

/-- Asks the service to run a program for a button. -/
def action (request : ActionRequest) : Act (Except ChatError ExecResult) := do
  let world ← read
  let state ← get
  set (state.note (.action request))
  pure (world.action state.log request)

/-- Gives a new message its id and its time. -/
def birth : Act Birth := do
  let world ← read
  let state ← get
  set { state with made := state.made + 1 }
  pure ⟨world.newId state.made, world.now state.log⟩

/-- The message about a run. -/
def toolMessage (chat : String) (result : ExecResult) : Act Message := do
  let world ← read
  let state ← get
  pure (.ofSender ⟨result.id, world.now state.log⟩ .tool chat result.message)

/-- The message about a run that failed. -/
def failureMessage (chat reason : String) : Act Message := do
  let birth ← birth
  pure (.ofSender birth .tool chat (Message.failureReport reason))

end Act

end ChatMarkup
