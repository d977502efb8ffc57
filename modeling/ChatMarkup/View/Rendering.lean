import ChatMarkup.View.Sketch

/-!
# Rendering a tree

A sketch with its code blocks filled in from a block table, in one pass over the table.
-/

namespace ChatMarkup

/-- A page, which may be saved, or an editor. -/
inductive Mode where
  | display (save : Bool)
  | editor
deriving DecidableEq, Repr

/-- What a rendering leaves: the view or the error, the table after it, the code to run, and the
nodes met, each with whether its neighbours are set tight. -/
structure Rendering where
  view : Except MarkupError (View CodeBlock)
  table : BlockTable
  queued : List QueuedCode
  met : List (Node × Bool)

namespace Rendering

/-- Shows a code block as the table says.  Blocks start collapsed, prose excepted. -/
def place (mode : Mode) (table : BlockTable) (source : CodeSource) : CodeBlock × BlockTable :=
  let (key, table) := table.nextKey source.lang source.code
  match mode with
  | .editor => (⟨source, key, none⟩, table)
  | .display _ =>
    let (flags, table) := table.observe key (source.lang ≠ proseLang)
    (⟨source, key, some flags⟩, table)

/-- The code that a rendering with these blocks leaves to be run. -/
def queue (mode : Mode) (sources : List CodeSource) : List QueuedCode :=
  match mode with
  | .display true =>
    (sources.filter CodeSource.runs).map fun source => ⟨source.code, some source.node⟩
  | _ => []

/-- Renders a tree.  A tree that cannot be shown leaves its pass over the table open. -/
def render (mode : Mode) (table : BlockTable) (tree : Node) : Rendering :=
  let sketch := View.sketch tree
  let sources := sketch.seen.filterMap Sighting.block?
  let opened := table.beginPass
  let filled := sketch.result.map fun view => view.fill (place mode) opened
  { view := filled.map Prod.fst
    table :=
      match filled with
      | .ok (_, table) => table.finishPass
      | .error _ => sources.foldl (fun table source => (place mode table source).2) opened
    queued := queue mode sources
    met := sketch.seen.filterMap Sighting.node? }

end Rendering

end ChatMarkup
