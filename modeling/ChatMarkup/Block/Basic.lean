import ChatMarkup.Block.Table

/-!
# Code blocks

A code block as a tree has it, and as it is shown.
-/

namespace ChatMarkup

/-- The language whose blocks can be run. -/
def runnableLang : String := "lugha"

/-- The language of prose. -/
def proseLang : String := "text"

/-- A code block of a tree: the id of its element, its attributes as source, and whether it asks
to be run. -/
structure CodeSource where
  node : Nat
  lang : String
  code : String
  attributes : String
  asksToRun : Bool
deriving DecidableEq, Repr

namespace CodeSource

/-- Whether the block is in the language that can be run. -/
def canRun (source : CodeSource) : Bool :=
  source.lang = runnableLang

/-- Whether the block is run when its message is saved. -/
def runs (source : CodeSource) : Bool :=
  source.canRun && source.asksToRun

end CodeSource

/-- A code block as it is shown: with controls on a page, without in an editor. -/
structure CodeBlock where
  source : CodeSource
  key : BlockKey
  controls : Option BlockFlags
deriving DecidableEq, Repr

namespace CodeBlock

/-- Whether the code is hidden. -/
def collapsed (block : CodeBlock) : Bool :=
  block.controls.any BlockFlags.collapsed

end CodeBlock

/-- Code that waits to be run, and the element it came from. -/
structure QueuedCode where
  code : String
  node : Option Nat
deriving DecidableEq, Repr

end ChatMarkup
