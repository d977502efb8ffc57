import ChatMarkup.Proofs.View.Sketch
import ChatMarkup.View.Rendering

/-!
# The rendering of a document

A document is shown with all its blocks, in their order, each placed by one pass over the table.

* `render_of_sketch`: the view and the table after it, from the sketch;
* `render_of_document`: the blocks of the view and the code to run, from those met in the tree.
-/

namespace ChatMarkup.Rendering

open Source

theorem source_place (mode : Mode) (table : BlockTable) (source : CodeSource) :
    (place mode table source).1.source = source := by
  cases mode <;> rfl

theorem render_of_sketch {tree : Node} {outline : View CodeSource}
    (h : (View.sketch tree).result = .ok outline) (mode : Mode) (table : BlockTable) :
    (render mode table tree).view = .ok (outline.fill (place mode) table.beginPass).1 ∧
      (render mode table tree).table =
        (outline.fill (place mode) table.beginPass).2.finishPass := by
  rw [render, h]
  exact ⟨rfl, rfl⟩

theorem render_of_document {tree : Node} (h : IsDocument tree) (mode : Mode)
    (table : BlockTable) :
    ∃ view, (render mode table tree).view = .ok view ∧
      view.blocks.map CodeBlock.source = tree.codeSources ∧
      (render mode table tree).queued = queue mode tree.codeSources := by
  obtain ⟨outline, hresult, hseen, -⟩ := View.sketch_of_document h
  refine ⟨_, (render_of_sketch hresult mode table).1, ?_, rfl⟩
  have hsources : outline.blocks = tree.codeSources := hseen.symm
  rw [View.blocks_fill, View.map_fillEach (place mode) CodeBlock.source id (source_place mode),
    List.map_id, hsources]

end ChatMarkup.Rendering
