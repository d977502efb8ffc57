import ChatMarkup.Proofs.Html.AttributeList
import ChatMarkup.Proofs.Html.Return
import ChatMarkup.Proofs.View.Levels
import ChatMarkup.Proofs.View.Page
import ChatMarkup.Proofs.View.Rendering

/-!
# Programs that come back from a page

A page that is read back and taken as markup holds the programs of its code blocks, in their order
and unchanged.

* `flatMap_tags_html`: what the elements of a page hold, if they hold what is in them and blocks hold
  something of their own, is that of the blocks of the view;
* `levelsBack_html`: a page means no more levels of elements than its view has;
* `importPage_page`: an imported page is imported as what is read back of it;
* `importPage_keeps_programs`: the codes of an imported page.
-/

namespace ChatMarkup

open Html

/-! ## Code blocks -/

namespace CodeBlock

/-- The program of a block once it is read back from a page. -/
def programBack (highlight : Highlighter) (block : CodeBlock) : String :=
  plainTexts (deliveredAll true [] (highlight block.source.lang block.source.code))

theorem programBack_eq {highlight : Highlighter} (h : highlight.Faithful) {block : CodeBlock}
    (hreturn : '\r' ∉ block.source.code.toList) : block.programBack highlight = block.source.code := by
  have htext := h.text block.source.lang block.source.code
  rw [programBack, plainTexts_deliveredAll true _ [] (by simp) (by rwa [htext]), htext]
  simp

/-- The bar of a code block. -/
def bar (block : CodeBlock) : Html :=
  .element "div" [("class", "lml-code-bar")]
    (.element "span" [] [.text block.source.lang] :: block.barButtons)

/-- The attributes of the element that holds the program. -/
def programAttributes (block : CodeBlock) : List (String × String) :=
  (markerKey, codeMarker) :: if block.collapsed then [("hidden", "hidden")] else []

/-- The attributes of the frame of a code block. -/
def frameAttributes (block : CodeBlock) : List (String × String) :=
  [(markerKey, "code"), ("data-attr", block.source.attributes), ("data-key", block.key.token),
    ("data-node", toString block.source.node),
    ("class", if block.collapsed then "lml-code collapsed" else "lml-code")]

/-- A code block as it is read back. -/
theorem delivered_html (highlight : Highlighter) (block : CodeBlock) :
    delivered false (block.html highlight) =
      .element "div" (spacedAttributes block.frameAttributes)
        [delivered false block.bar,
          .element "pre" (spacedAttributes block.programAttributes)
            [.element "code" []
              (deliveredAll true [] (highlight block.source.lang block.source.code))]] := by
  have hframe : isCodeText block.frameAttributes = false := by
    simp [isCodeText, frameAttributes, codeMarker]
  have hprogram : isCodeText block.programAttributes = true := by
    simp [isCodeText, programAttributes]
  have hpair : ∀ node other : Html, isTag node = true → isTag other = true →
      deliveredAll false [] [node, other] = [delivered false node, delivered false other] := by
    intro node other hnode hother
    cases node <;> cases other <;> first | cases hnode; done | cases hother; done | rfl
  have hpre : delivered false (.element "pre" block.programAttributes
      [.element "code" [] (highlight block.source.lang block.source.code)]) =
      .element "pre" (spacedAttributes block.programAttributes) [.element "code" []
        (deliveredAll true [] (highlight block.source.lang block.source.code))] := by
    rw [delivered, hprogram]
    rfl
  have hhtml : block.html highlight = .element "div" block.frameAttributes
      [block.bar, .element "pre" block.programAttributes
        [.element "code" [] (highlight block.source.lang block.source.code)]] := rfl
  rw [hhtml, delivered, hframe, Bool.or_false, hpair _ _ rfl rfl, hpre]

theorem marker_frame (block : CodeBlock) :
    marker (spacedAttributes block.frameAttributes) = "code" := by
  have hspaced : spacedValue "code" = "code" := by decide
  simp [marker, attribute?, spacedAttributes, frameAttributes, hspaced]

theorem isCodeContainer_frame (block : CodeBlock) :
    isCodeContainer "div" (spacedAttributes block.frameAttributes) = true := by
  have hlowered : "div".map Char.toLower = "div" := map_toLower_self (by decide)
  simp [isCodeContainer, block.marker_frame, hlowered]

theorem isCodeText_program (block : CodeBlock) :
    isCodeText (spacedAttributes block.programAttributes) = true := by
  have hspaced : spacedValue codeMarker = codeMarker := by decide
  simp [isCodeText, spacedAttributes, programAttributes, hspaced]

/-- A code block is a code element with its program. -/
theorem meaning_html (highlight : Highlighter) (block : CodeBlock) :
    meaning .default (delivered false (block.html highlight)) =
      [.element .code 0
        (constructAttributes .default "div" (spacedAttributes block.frameAttributes))
        (some (.block [.string (block.programBack highlight)]))] := by
  have hdiv : "div".map Char.toLower = "div" := map_toLower_self (by decide)
  have hpre : "pre".map Char.toLower = "pre" := map_toLower_self (by decide)
  have hcode : "code".map Char.toLower = "code" := map_toLower_self (by decide)
  have hbar : isFrame (delivered false block.bar) = true := by
    simp [bar, delivered, isFrame, hdiv]
  have hprogram : ∀ attributes children, isFrame (.element "pre" attributes children) = false := by
    intro attributes children
    simp [isFrame, hpre]
  have hitems : meanings .default true [delivered false block.bar,
      .element "pre" (spacedAttributes block.programAttributes) [.element "code" []
        (deliveredAll true [] (highlight block.source.lang block.source.code))]] =
      [.string (block.programBack highlight)] := by
    simp [meanings, meaning, hbar, hprogram, hpre, isCodeText_program, programText, hcode,
      programBack]
  have hconstruct : construct? .default "div" (spacedAttributes block.frameAttributes) =
      some "code" := by
    simp [construct?, constructsOf, hdiv, block.marker_frame]
  rw [delivered_html, meaning, isCodeContainer_frame, hitems, hconstruct, if_neg (by simp [hdiv]),
    if_neg (by simp [hdiv])]
  rfl

/-- The code element that a block is once it is read back. -/
def elementBack (highlight : Highlighter) (block : CodeBlock) : Node :=
  .element .code 0
    (constructAttributes .default "div" (spacedAttributes block.frameAttributes))
    (some (.block [.string (block.programBack highlight)]))

theorem codesBack_html (highlight : Highlighter) (block : CodeBlock) :
    codesBack (block.html highlight) = [block.elementBack highlight] := by
  rw [codesBack, meaning_html]
  rfl

theorem text_elementBack (highlight : Highlighter) (block : CodeBlock) :
    (block.elementBack highlight).text = block.programBack highlight := by
  simp [elementBack, Node.text_eq]

theorem listsBack_bar (block : CodeBlock) : listsBack block.bar = [] := by
  have hplain : ∀ (name text : String) (attributes : List (String × String)),
      IsOrdinary name attributes → listsBack (.element name attributes [.text text]) = [] :=
    fun name text attributes h => h.listsBack [.text text]
  have hbutton : ∀ action label : String, listsBack (barButton action label) = [] :=
    fun action label => hplain _ _ _ (isOrdinary_unmarked (by decide) rfl rfl)
  have hbuttons : ∀ node ∈ tags block.barButtons, listsBack node = [] := by
    intro node hnode
    have hmem := (List.mem_filter.mp hnode).1
    unfold barButtons at hmem
    split at hmem
    · cases hmem
    · simp only [List.mem_append, List.mem_cons, List.not_mem_nil, or_false] at hmem
      rcases hmem with (rfl | hmem) | rfl | rfl
      · exact hbutton _ _
      · split at hmem
        · rw [List.mem_singleton.mp hmem]
          exact hbutton _ _
        · cases hmem
      · exact hbutton _ _
      · exact hbutton _ _
  have hlang : listsBack (.element "span" [] [.text block.source.lang]) = [] :=
    hplain _ _ _ (isOrdinary_unmarked (by decide) rfl rfl)
  rw [bar, (isOrdinary_unmarked (by decide) rfl rfl).listsBack]
  refine List.flatMap_eq_nil_iff.mpr ?_
  exact List.forall_mem_cons.mpr ⟨hlang, hbuttons⟩

theorem listsBack_html (highlight : Highlighter) (block : CodeBlock) :
    listsBack (block.html highlight) = [spacedValue block.source.attributes] := by
  have hpre : "pre".map Char.toLower = "pre" := map_toLower_self (by decide)
  have hdiv : "div".map Char.toLower = "div" := map_toLower_self (by decide)
  have hbar : usedLists (delivered false block.bar) = [] := block.listsBack_bar
  have hlist : attribute? (spacedAttributes block.frameAttributes) "data-attr" =
      some (spacedValue block.source.attributes) := by
    simp [attribute?, spacedAttributes, frameAttributes, markerKey, List.lookup_cons]
  rw [listsBack, delivered_html, usedLists, isCodeContainer_frame, if_neg (by simp [hdiv]),
    if_pos rfl, hlist]
  simp [usedListsOfAll, usedLists, hbar, hpre, isCodeText_program]

end CodeBlock

namespace View

variable {highlight : Highlighter}

theorem isOrdinary_wrapper (wrapper : Wrapper) :
    IsOrdinary wrapper.htmlName [(markerKey, wrapper.marker)] := by
  refine isOrdinary_marked ?_ []
  cases wrapper with
  | heading level =>
    revert level
    decide
  | _ => decide

theorem isOrdinary_panel (kind : Panel) :
    IsOrdinary "div" [(markerKey, kind.marker), ("class", "lml-" ++ kind.marker)] := by
  refine isOrdinary_marked ?_ _
  cases kind <;> decide

/-- Whatever ordinary elements hold is held by the elements in them, and a block holds something of
its own. -/
structure IsHeld {γ : Type} (highlight : Highlighter) (f : Html → List γ) (g : CodeBlock → γ) :
    Prop where
  ordinary : ∀ {name attributes}, IsOrdinary name attributes → ∀ children,
    f (.element name attributes children) = (tags children).flatMap f
  block : ∀ block : CodeBlock, f (block.html highlight) = [g block]

theorem IsHeld.element {γ : Type} {f : Html → List γ} {g : CodeBlock → γ}
    (h : IsHeld highlight f g) {name : String} {attributes : List (String × String)}
    (hordinary : IsOrdinary name attributes) (children : List Html) :
    (tags [.element name attributes children]).flatMap f = (tags children).flatMap f := by
  rw [show tags [.element name attributes children] = [.element name attributes children] from rfl,
    List.flatMap_singleton, h.ordinary hordinary]

mutual

/-- The elements of a page hold what its blocks hold, in the order of the view. -/
theorem flatMap_tags_html {γ : Type} {f : Html → List γ} {g : CodeBlock → γ}
    (h : IsHeld highlight f g) :
    ∀ view : View CodeBlock, (tags (html highlight view)).flatMap f = view.blocks.map g
  | text value => rfl
  | wrapped wrapper children => by
    rw [html, h.element (isOrdinary_wrapper wrapper), blocks_wrapped]
    exact flatMap_tags_htmlAll h children
  | link href children => by
    rw [html, h.element (isOrdinary_marked (by decide) _), blocks_link]
    exact flatMap_tags_htmlAll h children
  | button node onclick label => by
    rw [html, List.cons_append, h.element (isOrdinary_marked (by decide) _), blocks_button]
    exact flatMap_tags_htmlAll h label
  | input node name value => by
    rw [html, List.cons_append, List.cons_append,
      h.element (isOrdinary_marked (by decide) _)]
    rfl
  | image source alt => by
    rw [html, h.element (isOrdinary_marked (by decide) _)]
    rfl
  | code block => by
    rw [html, blocks_code]
    exact (List.append_nil _).trans (h.block block)
  | panel kind children => by
    rw [html, h.element (isOrdinary_panel kind), blocks_panel]
    exact flatMap_tags_htmlAll h children
  | fragment children => by
    rw [html, blocks_fragment]
    exact flatMap_tags_htmlAll h children
  | failure message => by
    have hplain : ∀ name text : String, name.toList.map Char.toLower ≠ ['b', 'r'] →
        f (.element name [] [.text text]) = [] := fun name text hname =>
      h.ordinary (isOrdinary_unmarked hname rfl rfl) [.text text]
    rw [html, h.element (isOrdinary_marked (by decide) _)]
    show f _ ++ (f _ ++ []) = []
    rw [hplain _ _ (by decide), hplain _ _ (by decide)]
    rfl

theorem flatMap_tags_htmlAll {γ : Type} {f : Html → List γ} {g : CodeBlock → γ}
    (h : IsHeld highlight f g) :
    ∀ views : List (View CodeBlock),
      (tags (htmlAll highlight views)).flatMap f = (views.flatMap blocks).map g
  | [] => rfl
  | view :: views => by
    rw [htmlAll, tags_append, List.flatMap_append, flatMap_tags_html h view,
      flatMap_tags_htmlAll h views, List.flatMap_cons, List.map_append]

end

theorem isHeld_codes (highlight : Highlighter) :
    IsHeld highlight codesBack (CodeBlock.elementBack highlight) where
  ordinary h children := h.codesBack children
  block block := block.codesBack_html highlight

theorem isHeld_lists (highlight : Highlighter) :
    IsHeld highlight listsBack (fun block => spacedValue block.source.attributes) where
  ordinary h children := h.listsBack children
  block block := block.listsBack_html highlight

/-! ## Levels -/

mutual

/-- What a page means has no more levels of elements than the view. -/
theorem levelsBack_html (highlight : Highlighter) :
    ∀ view : View CodeBlock, ∀ node ∈ html highlight view, levelsBack node ≤ view.levels
  | text value => by
    rw [html, List.forall_mem_singleton]
    exact Nat.le_of_eq (levelsBack_text value)
  | wrapped wrapper children => by
    have hchildren := levelsBack_htmlAll highlight children
    rw [html, List.forall_mem_singleton, levels]
    split
    · -- the whole document stands for no construct
      rename_i hdocument
      subst hdocument
      have hnone : construct? .default Wrapper.document.htmlName
          (spacedAttributes [(markerKey, Wrapper.document.marker)]) = none := by
        decide +kernel
      have hle := (isOrdinary_wrapper .document).levelsBack_le hchildren
      rwa [hnone] at hle
    · exact (isOrdinary_wrapper wrapper).levelsBack_le_succ hchildren
  | link _ children | button _ _ children => by
    rw [html, List.forall_mem_singleton]
    exact (isOrdinary_marked (by decide) _).levelsBack_le_succ
      (levelsBack_htmlAll highlight children)
  | input .. | image .. => by
    rw [html, List.forall_mem_singleton]
    exact (isOrdinary_marked (by decide) _).levelsBack_le_succ nofun
  | code block => by
    rw [html, List.forall_mem_singleton, levelsBack, CodeBlock.meaning_html]
    simp [Node.nesting, levels]
  | panel kind children => by
    rw [html, List.forall_mem_singleton]
    exact (isOrdinary_panel kind).levelsBack_le_succ (levelsBack_htmlAll highlight children)
  | fragment children => by
    rw [html]
    exact levelsBack_htmlAll highlight children
  | failure message => by
    have hplain : ∀ name text : String, name.toList.map Char.toLower ≠ ['b', 'r'] →
        levelsBack (.element name [] [.text text]) ≤ 1 := fun name text hname =>
      (isOrdinary_unmarked hname rfl rfl).levelsBack_le_succ
        (List.forall_mem_singleton.mpr (Nat.le_of_eq (levelsBack_text text)))
    rw [html, List.forall_mem_singleton]
    refine (isOrdinary_marked (by decide) _).levelsBack_le_succ ?_
    rw [List.forall_mem_cons, List.forall_mem_singleton]
    exact ⟨hplain _ _ (by decide), hplain _ _ (by decide)⟩

theorem levelsBack_htmlAll (highlight : Highlighter) :
    ∀ views : List (View CodeBlock), ∀ node ∈ htmlAll highlight views,
      levelsBack node ≤ levelsAll views
  | [] => nofun
  | view :: views => by
    rw [htmlAll, levelsAll, List.forall_mem_append]
    exact ⟨fun node hnode =>
        Nat.le_trans (levelsBack_html highlight view node hnode) (Nat.le_max_left _ _),
      fun node hnode =>
        Nat.le_trans (levelsBack_htmlAll highlight views node hnode) (Nat.le_max_right _ _)⟩

end

/-! ## Pages -/

/-- The tree that is read back from a page. -/
def pageBack (highlight : Highlighter) (view : View CodeBlock) : List Html :=
  deliveredAll false [] (view.html highlight)

/-- A page that is imported is imported as what is read back of it. -/
theorem importPage_page {options : ImportOptions} (h : highlight.Faithful) (view : View CodeBlock) :
    importPage options (view.page highlight) =
      if areLegalNodes (view.html highlight) then
        importNodes options (view.pageBack highlight)
      else .error (.malformedHtml "not well-formed") := by
  have hproper := areProper_html h view
  rw [importPage, page_eq_write, ofBrowser_write hproper, read?_write hproper]
  split
  · rename_i hread
    split at hread
    · rename_i hlegal
      cases hread
      rw [if_pos hlegal]
      rfl
    · cases hread
  · rename_i hread
    split at hread
    · cases hread
    · rename_i hlegal
      rw [if_neg hlegal]

/-- An imported page is read as the document of what the page means. -/
theorem read_importPage (h : highlight.Faithful) {view : View CodeBlock}
    (hlevels : view.levels ≤ maxDepth)
    (hlists : ∀ block ∈ view.blocks, IsBrought (spacedValue block.source.attributes)) {text : String}
    (himport : importPage .default (view.page highlight) = .ok text) :
    Source.read text =
      .ok (Node.ofItems (meanings .default false (view.pageBack highlight))).renumbered := by
  have hnodes : importNodes .default (view.pageBack highlight) = .ok text := by
    rw [importPage_page h] at himport
    split at himport
    · exact himport
    · cases himport
  have hnesting := nestingAll_deliveredAll_le fun node hnode =>
    Nat.le_trans (levelsBack_html highlight view node hnode) hlevels
  refine read_importNodes hnesting (fun list hlist => ?_) hnodes
  rw [pageBack, usedListsOfAll_eq, tags_deliveredAll, List.flatMap_map] at hlist
  rw [show (tags (html highlight view)).flatMap (fun node => usedLists (delivered false node)) =
    view.blocks.map _ from flatMap_tags_html (isHeld_lists highlight) view] at hlist
  obtain ⟨block, hblock, rfl⟩ := List.mem_map.mp hlist
  exact hlists block hblock

/-- The code elements of what a page means are those of its blocks. -/
theorem codes_pageBack (highlight : Highlighter) (view : View CodeBlock) :
    Node.codesOfAll (meanings .default false (view.pageBack highlight)) =
      view.blocks.map (CodeBlock.elementBack highlight) := by
  rw [pageBack, codes_meanings, tags_deliveredAll, List.flatMap_map]
  exact flatMap_tags_html (isHeld_codes highlight) view

/-- The codes of what a page means are the programs of its blocks. -/
theorem codeTexts_pageBack (highlight : Highlighter) (view : View CodeBlock) :
    Node.codeTextsOfAll (meanings .default false (view.pageBack highlight)) =
      view.blocks.map (CodeBlock.programBack highlight) := by
  have hcodes := congrArg (List.map Node.text) (codes_pageBack highlight view)
  rw [List.map_map] at hcodes
  exact hcodes.trans (List.map_congr_left fun block _ => block.text_elementBack highlight)

end View

namespace Rendering

/-- What is rendered of a document has no more levels than can be read. -/
theorem levels_of_render {tree : Node} (h : Source.IsDocument tree) {mode : Mode}
    {table : BlockTable} {view : View CodeBlock}
    (hview : (render mode table tree).view = .ok view) : view.levels ≤ maxDepth := by
  obtain ⟨outline, hresult, -, -⟩ := View.sketch_of_document h
  rw [(render_of_sketch hresult mode table).1] at hview
  cases hview
  rw [View.levels_fill]
  exact View.levels_of_document h outline hresult

/-- The blocks that are rendered of a document are those that are met in it. -/
theorem mem_codeSources_of_render {tree : Node} (h : Source.IsDocument tree) {mode : Mode}
    {table : BlockTable} {view : View CodeBlock}
    (hview : (render mode table tree).view = .ok view) :
    ∀ block ∈ view.blocks, block.source ∈ tree.codeSources := by
  obtain ⟨shown, hshown, hsources, -⟩ := render_of_document h mode table
  rw [hview] at hshown
  cases hshown
  intro block hblock
  rw [← hsources]
  exact List.mem_map_of_mem hblock

/-- What is rendered of a document with finite numbers has levels and attribute lists that come back
from a page. -/
theorem returns_of_document {tree : Node} (h : Source.IsDocument tree)
    (hfinite : ∀ x ∈ tree.numbers, x.isFinite = true) {mode : Mode} {table : BlockTable}
    {view : View CodeBlock} (hview : (render mode table tree).view = .ok view) :
    view.levels ≤ maxDepth ∧
      ∀ block ∈ view.blocks, IsBrought (spacedValue block.source.attributes) :=
  ⟨levels_of_render h hview, fun block hblock =>
    isBrought_codeSources h hfinite _ (mem_codeSources_of_render h hview block hblock)⟩

end Rendering

/-- Every program of a page survives the page, unchanged and in its place: an import that succeeds
gives source that is read, and its codes are those of the blocks that were shown, if there is no
carriage return in them. -/
theorem importPage_keeps_programs {source : String} {tree : Node}
    (hread : Source.read source = .ok tree) (hfinite : ∀ x ∈ tree.numbers, x.isFinite = true)
    {mode : Mode} {table : BlockTable} {view : View CodeBlock}
    (hview : (Rendering.render mode table tree).view = .ok view) {highlight : Highlighter}
    (hhighlight : highlight.Faithful)
    (hreturn : ∀ block ∈ view.blocks, '\r' ∉ block.source.code.toList) {text : String}
    (himport : importPage .default (view.page highlight) = .ok text) :
    ∃ back, Source.read text = .ok back ∧
      back.codeTexts = view.blocks.map fun block => block.source.code := by
  obtain ⟨hlevels, hlists⟩ :=
    Rendering.returns_of_document (Source.isDocument_of_read hread) hfinite hview
  refine ⟨_, View.read_importPage hhighlight hlevels hlists himport, ?_⟩
  rw [Node.codeTexts_renumbered, Node.ofItems, Node.codeTexts_document, Node.codeTexts_elements,
    View.codeTexts_pageBack]
  exact List.map_congr_left fun block hblock =>
    block.programBack_eq hhighlight (hreturn block hblock)

/-- A program in a list, with brackets and quotes in it, and one in a panel. -/
def nestedSource : String :=
  "ol \x7b li \x7b b`first` code[lang=`lugha`, run=true] \x7b `x < \\\"1\\\" && y`\n\x7d \x7d \x7d" ++
    " reason \x7b code \x7b `it's\n` \x7d \x7d"

theorem importPage_keeps_programs_nested :
    ∃ tree view text,
      (Source.read nestedSource = .ok tree ∧ (∀ x ∈ tree.numbers, x.isFinite = true) ∧
        (Rendering.render (.display true) .empty tree).view = .ok view ∧
        Highlighter.plain.Faithful ∧ (∀ block ∈ view.blocks, '\r' ∉ block.source.code.toList) ∧
        importPage .default (view.page .plain) = .ok text) ∧
      ∃ back, Source.read text = .ok back ∧ back.codeTexts = ["x < \"1\" && y", "it's\n"] := by
  have hrun : ((Source.read nestedSource).toOption.bind fun tree =>
      (Rendering.render (.display true) .empty tree).view.toOption.bind fun view =>
        (importNodes .default (view.pageBack .plain)).toOption.map fun _ =>
          (tree.numbers.all Number.isFinite && areLegalNodes (view.html .plain),
            view.blocks.map fun block => block.source.code)) =
      some (true, ["x < \"1\" && y", "it's\n"]) := by
    rw [Source.read_of_toList (by
      delta nestedSource
      rw [String.toList_append, String.toList_ofList, String.toList_ofList])]
    decide +kernel
  obtain ⟨tree, hread, hrun⟩ := Option.bind_eq_some_iff.mp hrun
  obtain ⟨view, hview, hrun⟩ := Option.bind_eq_some_iff.mp hrun
  obtain ⟨text, hnodes, hfacts⟩ := Option.map_eq_some_iff.mp hrun
  obtain ⟨hchecks, hcodes⟩ := Prod.mk.inj hfacts
  obtain ⟨hfinite, hlegal⟩ := Bool.and_eq_true_iff.mp hchecks
  replace hread := Source.eq_ok_of_toOption hread
  replace hview := Source.eq_ok_of_toOption hview
  have himport : importPage .default (view.page .plain) = .ok text := by
    rw [View.importPage_page Highlighter.faithful_plain, if_pos hlegal]
    exact Source.eq_ok_of_toOption hnodes
  have hreturn : ∀ block ∈ view.blocks, '\r' ∉ block.source.code.toList := by
    have hall : ∀ code ∈ view.blocks.map fun block => block.source.code, '\r' ∉ code.toList := by
      rw [hcodes]
      decide
    exact fun block hblock => hall _ (List.mem_map_of_mem hblock)
  have hnumbers := List.all_eq_true.mp hfinite
  obtain ⟨back, hback, htexts⟩ := importPage_keeps_programs hread hnumbers hview
    Highlighter.faithful_plain hreturn himport
  exact ⟨tree, view, text, ⟨hread, hnumbers, hview, Highlighter.faithful_plain, hreturn, himport⟩,
    back, hback, htexts.trans hcodes⟩

end ChatMarkup
