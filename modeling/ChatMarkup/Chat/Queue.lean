import ChatMarkup.Chat.World
import ChatMarkup.Tree.Stamp

/-!
# Draining a queue of code

The code that a rendering has left to be run is run in its order.  A run that fails is reported, and
the draining goes on; any other failure ends it.  What was done before stays done, in the world and
in the tree.
-/

namespace ChatMarkup.Queue

/-- Runs one entry: the tree after it, and whether the tree was stamped, or what ended the
draining. -/
def runEntry (chat messageId : String) (entry : QueuedCode) (tree : Node) :
    Act (Node × Except ChatError Bool) := do
  match ← Act.exec ⟨chat, messageId, entry.code⟩ with
  | .ok result =>
    let tool ← Act.toolMessage chat result
    match ← (Act.host (.push tool)).run with
    | .error e => pure (tree, .error e)
    | .ok () =>
      let stamped := entry.node.bind fun node => result.filename.bind fun filename =>
        tree.stamp node filename
      let sent ← (Act.host (.send tool)).run
      pure (stamped.getD tree, sent.map fun _ => stamped.isSome)
  | .error (.execution reason) =>
    let report ← Act.failureMessage chat reason
    let pushed ← (Act.host (.push report)).run
    pure (tree, pushed.map fun _ => false)
  | .error e => pure (tree, .error e)

/-- Runs the entries: the tree after them, and whether it was stamped, or what ended the
draining. -/
def runEntries (chat messageId : String) :
    List QueuedCode → Node → Act (Node × Except ChatError Bool)
  | [], tree => pure (tree, .ok false)
  | entry :: entries, tree => do
    match ← runEntry chat messageId entry tree with
    | (tree, .error e) => pure (tree, .error e)
    | (tree, .ok stamped) =>
      let (tree, rest) ← runEntries chat messageId entries tree
      pure (tree, rest.map fun more => stamped || more)

/-- What draining leaves: the tree, the entries that still wait, and whether the tree was stamped,
or what ended the draining. -/
structure Drained where
  tree : Node
  waiting : List QueuedCode
  outcome : Except ChatError Bool

/-- Drains a queue.  Its entries are taken out of it before the first of them is run, so that none
waits any more, however the draining ends. -/
def drain (chat messageId : String) (queue : List QueuedCode) (tree : Node) : Act Drained := do
  let (tree, outcome) ← runEntries chat messageId queue tree
  pure ⟨tree, [], outcome⟩

end ChatMarkup.Queue
