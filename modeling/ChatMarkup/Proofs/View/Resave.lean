import ChatMarkup.Proofs.Html.LineEnds
import ChatMarkup.Proofs.View.Resaving

/-!
# Saving what an editor shows

Prose that is opened in an editor and saved without a change is not what it was before, but saving
it once more does not change it again.

* `resave`: what is saved of a source;
* `importNodes_drawn`: what is saved of items, from what is saved of each;
* `resave_settles`: what was saved is saved as it is.
-/

namespace ChatMarkup

open Html Source

/-- The page of a source in an editor. -/
def editorPage (highlight : Highlighter) (table : BlockTable) (source : String) :
    Except MarkupError String := do
  let tree ← Source.read source
  let view ← (Rendering.render .editor table tree).view
  pure (view.page highlight)

/-- The source that is saved if nothing is changed in the page. -/
def resave (highlight : Highlighter) (table : BlockTable) (source : String) :
    Except MarkupError String := do
  let page ← editorPage highlight table source
  importPage .default page

namespace View

variable {highlight : Highlighter}

/-- The source that is saved for neighbours. -/
def savedSource (xs : List Saved) : String :=
  trim (String.intercalate "\n" ((gathered [] xs).map Saved.source))

/-- The element that a whole document is drawn as. -/
def documentHtml (nodes : List Html) : Html :=
  .element Wrapper.document.htmlName [(markerKey, Wrapper.document.marker)] nodes

/-- A document is drawn around its items. -/
theorem render_drawn {P : Html → Saved → Prop} {items : List Node} {xs : List Saved}
    (h : List.Forall₂ (Drawn highlight P) items xs) (table : BlockTable) :
    ∃ view nodes, (Rendering.render .editor table (.ofItems items)).view = .ok view ∧
      view.html highlight = [documentHtml nodes] ∧
      List.Forall₂ (fun node x => IsSavedAs node x ∧ P node x) nodes xs := by
  obtain ⟨views, hviews, hall⟩ := drawn_items h
  have hcontent : (sketchContent false (.elements items)).result = .ok (.fragment views) := by
    rw [sketchContent, Traced.result_bind_of_ok hviews]
    rfl
  have hbody : (sketchBody false (some (.elements items))).result = .ok views := by
    rw [sketchBody, Traced.result_bind_of_ok (Traced.result_see _),
      Traced.result_bind_of_ok hcontent]
    rfl
  have hsketch : (sketch (.ofItems items)).result = .ok (.wrapped .document views) := by
    rw [sketch, Node.ofItems, Traced.result_bind_of_ok (Traced.result_see _), sketchContent,
      Traced.result_bind_of_ok hbody]
    rfl
  refine ⟨_, _, (Rendering.render_of_sketch hsketch .editor table).1, ?_,
    drawnAll hall table.beginPass⟩
  rw [fill, html, documentHtml]

theorem deliveredAll_document (nodes : List Html) :
    deliveredAll false [] [documentHtml nodes] =
      [.element Wrapper.document.htmlName
        (spacedAttributes [(markerKey, Wrapper.document.marker)]) (deliveredAll false [] nodes)] := by
  rw [documentHtml, deliveredAll, deliveredAll, delivered, (isOrdinary_wrapper .document).noProgram]
  · rfl
  · nofun

/-- What is saved of a document, and what it means. -/
theorem importNodes_drawn {nodes : List Html} {xs : List Saved}
    (h : List.Forall₂ IsSavedAs nodes xs) :
    importNodes .default (deliveredAll false [] [documentHtml nodes]) = .ok (savedSource xs) ∧
      meanings .default false (deliveredAll false [] [documentHtml nodes]) =
        (gathered [] xs).map Saved.item := by
  have hordinary := isOrdinary_wrapper .document
  have hconstruct : construct? .default Wrapper.document.htmlName
      (spacedAttributes [(markerKey, Wrapper.document.marker)]) = none := by
    decide +kernel
  obtain ⟨hsources, hmeanings⟩ := sources_deliveredAll h []
  rw [List.map_nil] at hsources hmeanings
  have hcontent : ∀ content, elementSource .default Wrapper.document.htmlName
      (spacedAttributes [(markerKey, Wrapper.document.marker)]) content = content := by
    intro content
    refine String.toList_injective ?_
    rw [elementSource_of_none hconstruct, if_neg (by decide +kernel), List.append_nil]
  constructor
  · rw [deliveredAll_document, importNodes, sources, sources, source, hordinary.noProgramBack,
      hordinary.noFrame, hsources, if_neg (by simp), if_neg (by simp), if_neg hordinary.noBreak]
    show Except.ok (trim (String.intercalate "\n" (if elementSource _ _ _ _ = "" then _ else _))) = _
    rw [hcontent, savedSource]
    split
    · rename_i hempty
      rw [hempty]
      rfl
    · rw [String.intercalate_singleton]
  · rw [deliveredAll_document, meanings, meanings, meaning, hordinary.noProgramBack,
      hordinary.noFrame, hconstruct, hmeanings, if_neg (by simp), if_neg (by simp),
      if_neg hordinary.noBreak, List.append_nil]

/-- The items of a document of prose are drawn, and what is saved of them is saved again. -/
theorem drawn_document (hhighlight : highlight.Faithful) (hkeeps : highlight.KeepsLegal)
    {items : List Node} (hitems : ∀ item ∈ items, IsItem maxDepth item)
    (hprose : ∀ node ∈ (Node.ofItems items).walk, node.isProse = true)
    (hfinite : ∀ x ∈ (Node.ofItems items).numbers, x.isFinite = true) :
    ∃ xs, List.Forall₂ (Drawn highlight (Settles highlight)) items xs := by
  rw [Node.ofItems, Node.walk, Node.walk, List.forall_mem_cons, List.forall_mem_cons] at hprose
  rw [Node.ofItems, Node.numbers, Node.numbersOfBody, Node.numbers] at hfinite
  refine exists_drawn fun item hitem => drawn_of_isItem hhighlight hkeeps (hitems item hitem)
    (fun node hnode => hprose.2.2 node ?_)
    (fun x hx => hfinite x (Node.mem_numbersOfAll.mpr ⟨item, hitem, hx⟩))
  rw [Node.walkAll_eq_flatMap]
  exact List.mem_flatMap.mpr ⟨item, hitem, hnode⟩

end View

theorem resave_of_view (highlight : Highlighter) {table : BlockTable} {source : String} {tree : Node}
    {view : View CodeBlock} (hread : Source.read source = .ok tree)
    (hview : (Rendering.render .editor table tree).view = .ok view) :
    editorPage highlight table source = .ok (view.page highlight) ∧
      resave highlight table source = importPage .default (view.page highlight) := by
  have hpage : editorPage highlight table source = .ok (view.page highlight) := by
    rw [editorPage, hread]
    show ((Rendering.render .editor table tree).view >>= _) = _
    rw [hview]
    rfl
  refine ⟨hpage, ?_⟩
  rw [resave, hpage]
  rfl

/-- What is saved again of each neighbour is saved again of all of them. -/
theorem resave_of_resaves {highlight : Highlighter} (hhighlight : highlight.Faithful)
    {xs : List Saved} (h : ∀ x ∈ xs, View.Resaves highlight x) {saved : String}
    (hread : Source.read saved = .ok (Node.ofItems (xs.map Saved.item)).renumbered)
    (table : BlockTable) : resave highlight table saved = .ok (View.savedSource xs) := by
  obtain ⟨view, nodes, hview, hhtml, hnodes⟩ := View.render_drawn (View.drawn_renumberAll h 0) table
  rw [Node.renumbered_ofItems] at hread
  have hheld : areLegalNodes nodes = true :=
    View.areLegalNodes_of_drawn (hnodes.imp fun _ _ hboth => hboth.2)
  have hlegal : areLegalNodes (view.html highlight) = true := by
    rw [hhtml, areLegalNodes, View.documentHtml, isLegalNode, hheld]
    decide
  rw [(resave_of_view highlight hread hview).2, View.importPage_page hhighlight, if_pos hlegal,
    View.pageBack, hhtml]
  exact (View.importNodes_drawn (View.isSavedAs_drawnAll hnodes)).1

/-- Saving prose settles at once: what is saved of it is saved as it is the next time. The page it
is saved from is one whose line ends may be folded before it is read. -/
theorem resave_settles {highlight : Highlighter} (hhighlight : highlight.Faithful)
    (hkeeps : highlight.KeepsLegal) {source : String} {tree : Node}
    (hread : Source.read source = .ok tree) (hprose : ∀ node ∈ tree.walk, node.isProse = true)
    (hfinite : ∀ x ∈ tree.numbers, x.isFinite = true) {table : BlockTable}
    (hlines : ∀ page, editorPage highlight table source = .ok page → ReadsFolded page)
    {saved : String} (h : resave highlight table source = .ok saved) (table' : BlockTable) :
    resave highlight table' saved = .ok saved := by
  have hdocument := isDocument_of_read hread
  obtain ⟨items, rfl, hitems⟩ := id hdocument
  obtain ⟨xs, hxs⟩ := View.drawn_document hhighlight hkeeps hitems hprose hfinite
  -- what is saved of the first page
  obtain ⟨view, nodes, hview, hhtml, hnodes⟩ := View.render_drawn hxs table
  obtain ⟨hpage, hresave⟩ := resave_of_view highlight hread hview
  obtain ⟨himport, hmeanings⟩ := View.importNodes_drawn (View.isSavedAs_drawnAll hnodes)
  obtain ⟨hlevels, hlists⟩ := Rendering.returns_of_document hdocument hfinite hview
  rw [hresave] at h
  have hback := View.read_importPage hhighlight hlevels hlists h
  rw [View.pageBack, hhtml, hmeanings] at hback
  rw [View.importPage_page hhighlight, View.pageBack, hhtml, himport] at h
  split at h
  · rename_i hlegal
    cases h
    rw [← hhtml] at hlegal
    have hfolded := hlines _ hpage
    rw [View.page_eq_write] at hfolded
    have hreturn := plainTexts_of_readsFolded (View.areProper_html hhighlight view) hlegal hfolded
    rw [hhtml, View.deliveredAll_document, plainTexts, plainText, plainTexts, String.append_empty]
      at hreturn
    rw [hhtml, areLegalNodes, View.documentHtml, isLegalNode, Bool.and_eq_true, Bool.and_eq_true]
      at hlegal
    -- what was saved of each item is saved again
    have hagain := View.forall_resaves (hnodes.imp fun _ _ hboth => hboth.2) hlegal.1.2 hreturn
    have hall := resave_of_resaves hhighlight (View.forall_resaves_gathered hagain) hback table'
    rw [hall, View.savedSource, gathered_gathered, View.savedSource]
  · cases h

/-- Prose with blanks that fold, a number, a link with a line end, a code block that has no language,
and a list in a part of an answer. -/
def proseSource : String :=
  "h1 \x7b `Two  words` \x7d p \x7b `a` b`b` 1.50 link[href=`#\n`] \x7b ` ` \x7d \x7d " ++
    "code \x7b `x < 1` \x7d reason \x7b ul \x7b li \x7b `y` \x7d \x7d \x7d"

theorem resave_settles_mixed :
    ∃ tree saved,
      (Highlighter.plain.Faithful ∧ Highlighter.plain.KeepsLegal ∧
        Source.read proseSource = .ok tree ∧ (∀ node ∈ tree.walk, node.isProse = true) ∧
        (∀ x ∈ tree.numbers, x.isFinite = true) ∧
        (∀ page, editorPage .plain .empty proseSource = .ok page → ReadsFolded page) ∧
        resave .plain .empty proseSource = .ok saved) ∧
      saved ≠ proseSource ∧ resave .plain .empty saved = .ok saved := by
  have hrun : ((Source.read proseSource).toOption.bind fun tree =>
      (Rendering.render .editor .empty tree).view.toOption.bind fun view =>
        (importNodes .default (view.pageBack .plain)).toOption.map fun _ =>
          (tree.walk.all Node.isProse && tree.numbers.all Number.isFinite &&
            areLegalNodes (view.html .plain) && nodesLackReturn (view.html .plain),
            tree.numbers.length,
            (Node.ofItems (meanings .default false (view.pageBack .plain))).renumbered.numbers.length)) =
      some (true, 1, 0) := by
    rw [read_of_toList (by
      delta proseSource
      rw [String.toList_append, String.toList_ofList, String.toList_ofList])]
    decide +kernel
  obtain ⟨tree, hread, hrun⟩ := Option.bind_eq_some_iff.mp hrun
  obtain ⟨view, hview, hrun⟩ := Option.bind_eq_some_iff.mp hrun
  obtain ⟨saved, hnodes, hfacts⟩ := Option.map_eq_some_iff.mp hrun
  obtain ⟨hchecks, hcounts⟩ := Prod.mk.inj hfacts
  obtain ⟨hone, hzero⟩ := Prod.mk.inj hcounts
  simp only [Bool.and_eq_true, List.all_eq_true] at hchecks
  obtain ⟨⟨⟨hprose, hfinite⟩, hlegal⟩, hreturn⟩ := hchecks
  replace hread := eq_ok_of_toOption hread
  replace hview := eq_ok_of_toOption hview
  obtain ⟨hpage, hresave⟩ := resave_of_view .plain hread hview
  have himport : importPage .default (view.page .plain) = .ok saved := by
    rw [View.importPage_page Highlighter.faithful_plain, if_pos hlegal]
    exact eq_ok_of_toOption hnodes
  have hlines : ∀ page, editorPage .plain .empty proseSource = .ok page → ReadsFolded page := by
    intro page h
    rw [hpage] at h
    cases h
    rw [View.page_eq_write]
    exact readsFolded_write (View.areProper_html Highlighter.faithful_plain view) hreturn
  have hchanged : saved ≠ proseSource := by
    rintro rfl
    -- the number would have to come back, but it is saved as a text
    obtain ⟨hlevels, hlists⟩ :=
      Rendering.returns_of_document (isDocument_of_read hread) hfinite hview
    have hback := View.read_importPage Highlighter.faithful_plain hlevels hlists himport
    rw [hread] at hback
    rw [← Except.ok.inj hback, hone] at hzero
    exact absurd hzero Nat.one_ne_zero
  have hsaved := hresave.trans himport
  exact ⟨tree, saved, ⟨Highlighter.faithful_plain, Highlighter.keepsLegal_plain, hread, hprose,
    hfinite, hlines, hsaved⟩, hchanged, resave_settles Highlighter.faithful_plain
    Highlighter.keepsLegal_plain hread hprose hfinite hlines hsaved .empty⟩

end ChatMarkup
