import ChatMarkup.Proofs.View.BlockPage
import ChatMarkup.Proofs.View.Placing

/-!
# What controls leave in the source

Nothing: a page is imported as the page of the same view without controls, in which no block is
collapsed or has a bar of buttons. Two renderings of a document have the same view but for the
controls, so they are imported alike, whatever was collapsed, run or copied in them.

* `withoutControls_render`: two renderings of a tree, up to the controls of the blocks;
* `ImportsAlike`: what may stand for what in a page, closed under the elements of a view;
* `importPage_withoutControls`: the page without controls is imported alike;
* `importPage_renderings`: so are the pages of any two renderings.
-/

namespace ChatMarkup

open Html

/-! ## Views without controls -/

/-- A block as an editor shows it. -/
def CodeBlock.withoutControls (block : CodeBlock) : CodeBlock :=
  { block with controls := none }

namespace View

variable {α β γ σ τ : Type}

mutual

/-- The view with each of its blocks changed. -/
def mapBlocks (g : α → β) : View α → View β
  | text value => text value
  | wrapped wrapper children => wrapped wrapper (mapBlocksAll g children)
  | link href children => link href (mapBlocksAll g children)
  | button node onclick label => button node onclick (mapBlocksAll g label)
  | input node name value => input node name value
  | image source alt => image source alt
  | code block => code (g block)
  | panel kind children => panel kind (mapBlocksAll g children)
  | fragment children => fragment (mapBlocksAll g children)
  | failure message => failure message

def mapBlocksAll (g : α → β) : List (View α) → List (View β)
  | [] => []
  | view :: views => mapBlocks g view :: mapBlocksAll g views

end

/-- The view as an editor shows it. -/
def withoutControls (view : View CodeBlock) : View CodeBlock :=
  view.mapBlocks CodeBlock.withoutControls

/-- Filling in blocks that are changed at once. -/
def fillChanged (g : β → γ) (f : σ → α → β × σ) (s : σ) (block : α) : γ × σ :=
  (g (f s block).1, (f s block).2)

mutual

theorem fill_fillChanged (g : β → γ) (f : σ → α → β × σ) :
    ∀ (view : View α) (s : σ),
      fill (fillChanged g f) s view = ((fill f s view).1.mapBlocks g, (fill f s view).2)
  | text _, _ | input .., _ | image .., _ | failure _, _ | code _, _ => rfl
  | wrapped _ children, s | link _ children, s | button _ _ children, s | panel _ children, s
  | fragment children, s => by
    rw [fill, fillAll_fillChanged g f children s]
    rfl

theorem fillAll_fillChanged (g : β → γ) (f : σ → α → β × σ) :
    ∀ (views : List (View α)) (s : σ),
      fillAll (fillChanged g f) s views =
        (mapBlocksAll g (fillAll f s views).1, (fillAll f s views).2)
  | [], _ => rfl
  | view :: views, s => by
    rw [fillAll, fill_fillChanged g f view s]
    show (_ :: (fillAll _ _ views).1, (fillAll _ _ views).2) = _
    rw [fillAll_fillChanged g f views]
    rfl

end

end View

namespace Rendering

open Source

/-- A block is shown under the same key in every mode, whatever the rows of the table. -/
theorem related_place (mode mode' : Mode) :
    View.Related (View.fillChanged CodeBlock.withoutControls (place mode))
      (View.fillChanged CodeBlock.withoutControls (place mode'))
      (fun table table' => table.met = table'.met) := by
  have hplace : ∀ (mode : Mode) (table : BlockTable) (source : CodeSource),
      (place mode table source).1.withoutControls =
          ⟨source, ⟨source.lang, source.code, table.met.count (source.lang, source.code)⟩, none⟩ ∧
        (place mode table source).2.met = (source.lang, source.code) :: table.met := by
    intro mode table source
    cases mode with
    | editor => exact ⟨rfl, rfl⟩
    | display save =>
      refine ⟨rfl, ?_⟩
      show ((table.nextKey _ _).2.observe _ _).2.met = _
      rw [BlockTable.met_observe]
      rfl
  intro table table' source hmet
  obtain ⟨hblock, hnext⟩ := hplace mode table source
  obtain ⟨hblock', hnext'⟩ := hplace mode' table' source
  refine ⟨?_, ?_⟩
  · show (place mode table source).1.withoutControls = (place mode' table' source).1.withoutControls
    rw [hblock, hblock', hmet]
  · show (place mode table source).2.met = (place mode' table' source).2.met
    rw [hnext, hnext', hmet]

/-- Two renderings of a tree show the same but for the controls of blocks. -/
theorem withoutControls_render (tree : Node) (mode mode' : Mode) (table table' : BlockTable) :
    (render mode table tree).view.map View.withoutControls =
      (render mode' table' tree).view.map View.withoutControls := by
  cases hsketch : (View.sketch tree).result with
  | error error => rw [render, render, hsketch]; rfl
  | ok outline =>
    have hsame := (View.fill_related (related_place mode mode') outline table.beginPass
      table'.beginPass rfl).1
    rw [View.fill_fillChanged, View.fill_fillChanged] at hsame
    rw [(render_of_sketch hsketch mode table).1, (render_of_sketch hsketch mode' table').1]
    exact congrArg Except.ok hsame

end Rendering

/-! ## Nodes that are imported alike -/

namespace Html

variable {options : ImportOptions}

theorem isFrame_delivered (inCode : Bool) (node : Html) :
    isFrame (delivered inCode node) = isFrame node := by
  cases node <;> rfl

/-- What may stand for what in a page that is read back and imported: the same texts, and elements
with the same source. -/
inductive ImportsAlike (options : ImportOptions) : Html → Html → Prop where
  | text (value : String) : ImportsAlike options (.text value) (.text value)
  | tag {node other : Html} (node_isTag : isTag node = true) (other_isTag : isTag other = true)
      (frame : isFrame node = isFrame other)
      (legal : isLegalNode node = isLegalNode other)
      (same : source options (delivered false node) = source options (delivered false other)) :
      ImportsAlike options node other

theorem ImportsAlike.refl (node : Html) : ImportsAlike options node node := by
  cases node with
  | text value => exact .text value
  | element | aside => exact .tag rfl rfl rfl rfl rfl

theorem forall₂_importsAlike_self (nodes : List Html) :
    List.Forall₂ (ImportsAlike options) nodes nodes :=
  List.forall₂_same.mpr fun node _ => .refl node

theorem areLegalNodes_alike {nodes others : List Html}
    (h : List.Forall₂ (ImportsAlike options) nodes others) :
    areLegalNodes nodes = areLegalNodes others := by
  induction h with
  | nil => rfl
  | cons hnode _ ih =>
    rw [areLegalNodes, areLegalNodes, ih]
    cases hnode with
    | text value => rfl
    | tag _ _ _ hlegal _ => rw [hlegal]

/-- The sources of nodes depend on the sources of those behind the first ones. -/
theorem sources_append_congr {dropFrame : Bool} {nodes others : List Html}
    (h : sources options dropFrame nodes = sources options dropFrame others) (front : List Html) :
    sources options dropFrame (front ++ nodes) = sources options dropFrame (front ++ others) := by
  induction front with
  | nil => exact h
  | cons node front ih => rw [List.cons_append, List.cons_append, sources, sources, ih]

theorem sources_deliveredAll_alike {nodes others : List Html}
    (h : List.Forall₂ (ImportsAlike options) nodes others) (dropFrame : Bool)
    (pending : List Piece) :
    sources options dropFrame (deliveredAll false pending nodes) =
      sources options dropFrame (deliveredAll false pending others) := by
  induction h generalizing pending with
  | nil => rfl
  | cons hnode _ ih =>
    cases hnode with
    | text value =>
      rw [deliveredAll, deliveredAll]
      exact ih _
    | tag hnode hother hframe _ hsame =>
      rw [deliveredAll_tag hnode, deliveredAll_tag hother]
      refine sources_append_congr ?_ _
      rw [sources, sources, isFrame_delivered, isFrame_delivered, hframe, hsame, ih []]

/-- Elements with the same tag are imported alike if what is in them is, unless they hold the
program of a block. -/
theorem ImportsAlike.element {name : String} {attributes : List (String × String)}
    (hprogram : isCodeText attributes = false)
    (hback : isCodeText (spacedAttributes attributes) = false) {nodes others : List Html}
    (h : List.Forall₂ (ImportsAlike options) nodes others) :
    ImportsAlike options (.element name attributes nodes) (.element name attributes others) := by
  refine .tag rfl rfl rfl ?_ ?_
  · rw [isLegalNode, isLegalNode, areLegalNodes_alike h]
  · have hnot : ¬ (name.map Char.toLower = "pre" ∧
        isCodeText (spacedAttributes attributes) = true) := by
      simp [hback]
    rw [delivered, delivered, hprogram, Bool.or_false, source, source, if_neg hnot, if_neg hnot,
      sources_deliveredAll_alike h]

theorem IsOrdinary.importsAlike {name : String} {attributes : List (String × String)}
    (hordinary : IsOrdinary name attributes) {nodes others : List Html}
    (h : List.Forall₂ (ImportsAlike options) nodes others) :
    List.Forall₂ (ImportsAlike options) [.element name attributes nodes]
      [.element name attributes others] :=
  .cons (.element hordinary.noProgram hordinary.noProgramBack h) .nil

end Html

/-! ## Pages -/

/-- The controls of a block are not imported. -/
theorem CodeBlock.importsAlike_withoutControls (options : ImportOptions) (highlight : Highlighter)
    (block : CodeBlock) :
    ImportsAlike options (block.html highlight) (block.withoutControls.html highlight) := by
  refine .tag rfl rfl rfl ?_ ?_
  · rw [isLegalNode_html, isLegalNode_html]
    rfl
  · have hlist : codeAttributes options (spacedAttributes block.withoutControls.frameAttributes) =
        codeAttributes options (spacedAttributes block.frameAttributes) := by
      rw [codeAttributes, codeAttributes, attribute?_frame, attribute?_frame]
      rfl
    rw [source_delivered, source_delivered, hlist]
    rfl

namespace View

variable (options : ImportOptions) (highlight : Highlighter)

mutual

/-- Every element of a page is imported as that of the page without controls. -/
theorem importsAlike_withoutControls : ∀ view : View CodeBlock,
    List.Forall₂ (ImportsAlike options) (html highlight view)
      (html highlight view.withoutControls)
  | text _ | input .. | image .. | failure _ => forall₂_importsAlike_self _
  | wrapped wrapper children => by
    rw [withoutControls, mapBlocks, html, html]
    exact (isOrdinary_wrapper wrapper).importsAlike (importsAlike_withoutControlsAll children)
  | link href children => by
    rw [withoutControls, mapBlocks, html, html]
    exact (isOrdinary_marked (by decide) _).importsAlike
      (importsAlike_withoutControlsAll children)
  | button node onclick label => by
    rw [withoutControls, mapBlocks, html, html, List.cons_append]
    exact (isOrdinary_marked (by decide) _).importsAlike
      (importsAlike_withoutControlsAll label)
  | code block => by
    rw [withoutControls, mapBlocks, html, html]
    exact .cons (block.importsAlike_withoutControls options highlight) .nil
  | panel kind children => by
    rw [withoutControls, mapBlocks, html, html]
    exact (isOrdinary_panel kind).importsAlike (importsAlike_withoutControlsAll children)
  | fragment children => by
    rw [withoutControls, mapBlocks, html, html]
    exact importsAlike_withoutControlsAll children

theorem importsAlike_withoutControlsAll : ∀ views : List (View CodeBlock),
    List.Forall₂ (ImportsAlike options) (htmlAll highlight views)
      (htmlAll highlight (mapBlocksAll CodeBlock.withoutControls views))
  | [] => .nil
  | view :: views => by
    rw [mapBlocksAll, htmlAll, htmlAll]
    exact List.rel_append (importsAlike_withoutControls view)
      (importsAlike_withoutControlsAll views)

end

variable {highlight}

/-- The controls of a page are not imported. -/
theorem importPage_withoutControls (h : highlight.Faithful) (view : View CodeBlock) :
    importPage options (view.withoutControls.page highlight) =
      importPage options (view.page highlight) := by
  have halike := importsAlike_withoutControls options highlight view
  rw [importPage_page h, importPage_page h, areLegalNodes_alike halike, pageBack, pageBack,
    importNodes, importNodes, sources_deliveredAll_alike halike]

end View

/-- Two renderings of a source, in any modes and with any rows in their tables, show the same but
for the controls of blocks, and their pages are imported alike: with the same source or the same
error. -/
theorem importPage_renderings {source : String} {tree : Node}
    (hread : Source.read source = .ok tree) {highlight : Highlighter}
    (hhighlight : highlight.Faithful) (options : ImportOptions) (mode mode' : Mode)
    (table table' : BlockTable) :
    ∃ view view', (Rendering.render mode table tree).view = .ok view ∧
      (Rendering.render mode' table' tree).view = .ok view' ∧
      view.withoutControls = view'.withoutControls ∧
      importPage options (view.page highlight) = importPage options (view'.page highlight) := by
  have hdocument := Source.isDocument_of_read hread
  obtain ⟨view, hview, -⟩ := Rendering.render_of_document hdocument mode table
  obtain ⟨view', hview', -⟩ := Rendering.render_of_document hdocument mode' table'
  have hsame := Rendering.withoutControls_render tree mode mode' table table'
  rw [hview, hview'] at hsame
  replace hsame : view.withoutControls = view'.withoutControls := Except.ok.inj hsame
  refine ⟨view, view', hview, hview', hsame, ?_⟩
  rw [← View.importPage_withoutControls options hhighlight view, hsame,
    View.importPage_withoutControls options hhighlight view']

/-- A table after three passes, in which a program is open and runs. -/
def busyTable : BlockTable :=
  ⟨[⟨⟨"lugha", "x < \"1\" && y", 0⟩, ⟨false, true, false⟩, 3⟩], 3, []⟩

/-- An editor and a busy page: the views are not the same, what is imported is. -/
theorem importPage_renderings_busy :
    ∃ tree, (Source.read nestedSource = .ok tree ∧ Highlighter.plain.Faithful) ∧
      ∃ view view', (Rendering.render .editor .empty tree).view = .ok view ∧
        (Rendering.render (.display true) busyTable tree).view = .ok view' ∧
        view.blocks.map CodeBlock.controls = [none, none] ∧
        view'.blocks.map CodeBlock.controls =
          [some ⟨false, true, false⟩, some ⟨true, false, false⟩] ∧
        view.withoutControls = view'.withoutControls ∧
        importPage .default (view.page .plain) = importPage .default (view'.page .plain) := by
  have hrun : ((Source.read nestedSource).toOption.bind fun tree =>
      (Rendering.render .editor .empty tree).view.toOption.bind fun view =>
        (Rendering.render (.display true) busyTable tree).view.toOption.map fun view' =>
          (view.blocks.map CodeBlock.controls, view'.blocks.map CodeBlock.controls)) =
      some ([none, none], [some ⟨false, true, false⟩, some ⟨true, false, false⟩]) := by
    rw [Source.read_of_toList (by
      delta nestedSource
      rw [String.toList_append, String.toList_ofList, String.toList_ofList])]
    decide +kernel
  obtain ⟨tree, hread, hrun⟩ := Option.bind_eq_some_iff.mp hrun
  obtain ⟨view, hview, hrun⟩ := Option.bind_eq_some_iff.mp hrun
  obtain ⟨view', hview', hrun⟩ := Option.map_eq_some_iff.mp hrun
  obtain ⟨hcontrols, hcontrols'⟩ := Prod.mk.inj hrun
  replace hread := Source.eq_ok_of_toOption hread
  obtain ⟨shown, shown', hshown, hshown', hsame, himport⟩ :=
    importPage_renderings hread Highlighter.faithful_plain .default .editor (.display true) .empty
      busyTable
  rw [Source.eq_ok_of_toOption hview] at hshown
  rw [Source.eq_ok_of_toOption hview'] at hshown'
  cases hshown
  cases hshown'
  exact ⟨tree, ⟨hread, Highlighter.faithful_plain⟩, view, view', Source.eq_ok_of_toOption hview,
    Source.eq_ok_of_toOption hview', hcontrols, hcontrols', hsame, himport⟩

end ChatMarkup
