import ChatMarkup.Proofs.View.BlockPage

/-!
# Items on their way through an editor

An item is shown in an editor and saved as it is drawn there. What is saved of prose once is saved
of it again: spaces between neighbours, folded blanks, attributes and the numbers of elements have
settled.

* `DrawnAs`: a view with what is saved of it, wherever it stands;
* `drawn_of_wraps`: an element that wraps its body is drawn with what is saved of the body;
* `Resaves`: what is saved is saved again of the item that it stands for;
* `drawn_of_isItem`: every item of prose is drawn, and what is saved of it is saved again.
-/

namespace ChatMarkup

open Html Source

/-- Whether a tag is one of prose: it wraps its body without a say in its blanks, or is that of a
link, of a code block or of a part of an answer. -/
def Tag.isProse : Tag → Bool
  | heading _ | paragraph | orderedList | unorderedList | listItem | bold | italic | inlineCode
  | link | code => true
  | custom name => name = "reason" || name = "answer"
  | button | input | image | preformatted | noSpace => false

/-- Whether a node is one of prose, whatever is below it. -/
def Node.isProse : Node → Bool
  | element tag _ _ _ => tag.isProse
  | document _ | elements _ | block _ | string _ | number _ => true
  | boolean _ | identifier _ | attributeList _ | binding _ _ => false

namespace View

variable {highlight : Highlighter}

/-- Wherever the view stands in an editor, it is drawn as one node with this saved of it, and the two
are related. -/
def DrawnAs (highlight : Highlighter) (P : Html → Saved → Prop) (view : View CodeSource)
    (x : Saved) : Prop :=
  ∀ table, ∃ node, html highlight (view.fill (Rendering.place .editor) table).1 = [node] ∧
    IsSavedAs node x ∧ P node x

/-- An item is shown in a view that is drawn with this saved of it. -/
def Drawn (highlight : Highlighter) (P : Html → Saved → Prop) (item : Node) (x : Saved) : Prop :=
  ∃ view, (sketchContent false item).result = .ok view ∧ DrawnAs highlight P view x

/-- The views of a body are drawn with these saved of them. -/
def DrawnBody (highlight : Highlighter) (P : Html → Saved → Prop) (body : Node)
    (xs : List Saved) : Prop :=
  ∃ views, (sketchBody false (some body)).result = .ok views ∧
    List.Forall₂ (DrawnAs highlight P) views xs

theorem DrawnAs.mono {P Q : Html → Saved → Prop} {view : View CodeSource} {x : Saved}
    (h : DrawnAs highlight P view x) (hPQ : ∀ node, P node x → Q node x) :
    DrawnAs highlight Q view x := by
  intro table
  obtain ⟨node, hnode, hsaved, hP⟩ := h table
  exact ⟨node, hnode, hsaved, hPQ node hP⟩

theorem drawnAs_text {P : Html → Saved → Prop} {value : String} (h : P (.text value) (.text value)) :
    DrawnAs highlight P (.text value) (.text value) :=
  fun _ => ⟨.text value, rfl, .text value, h⟩

/-- Views next to each other are drawn one after the other. -/
theorem drawnAll {P : Html → Saved → Prop} {views : List (View CodeSource)} {xs : List Saved}
    (h : List.Forall₂ (DrawnAs highlight P) views xs) (table : BlockTable) :
    List.Forall₂ (fun node x => IsSavedAs node x ∧ P node x)
      (htmlAll highlight (fillAll (Rendering.place .editor) table views).1) xs := by
  induction h generalizing table with
  | nil => exact .nil
  | @cons view x views xs hview _ ih =>
    obtain ⟨node, hnode, hrest⟩ := hview table
    rw [fillAll, htmlAll, hnode]
    exact .cons hrest (ih _)

theorem isSavedAs_drawnAll {P : Html → Saved → Prop} {nodes : List Html} {xs : List Saved}
    (h : List.Forall₂ (fun node x => IsSavedAs node x ∧ P node x) nodes xs) :
    List.Forall₂ IsSavedAs nodes xs :=
  h.imp fun _ _ hboth => hboth.1

/-! ## Bodies -/

theorem drawn_items {P : Html → Saved → Prop} {items : List Node} {xs : List Saved}
    (h : List.Forall₂ (Drawn highlight P) items xs) :
    ∃ views, (sketchItems false items).result = .ok views ∧
      List.Forall₂ (DrawnAs highlight P) views xs := by
  induction h with
  | nil => exact ⟨[], by rw [sketchItems]; rfl, .nil⟩
  | @cons item x items xs hitem _ ih =>
    obtain ⟨view, hview, hdrawn⟩ := hitem
    obtain ⟨views, hviews, hall⟩ := ih
    refine ⟨view :: views, ?_, .cons hdrawn hall⟩
    rw [sketchItems, Traced.result_bind_of_ok (Traced.result_see _),
      Traced.result_bind_of_ok hview, Traced.result_bind_of_ok hviews]
    rfl

/-- The spaces between views are drawn as well. -/
theorem drawnAs_spaced {P : Html → Saved → Prop} (hspace : P (.text " ") (.text " "))
    {views : List (View CodeSource)} {xs : List Saved}
    (h : List.Forall₂ (DrawnAs highlight P) views xs) :
    List.Forall₂ (DrawnAs highlight P) (spaced views) (spacedApart xs) := by
  induction h with
  | nil => exact .nil
  | @cons view x views xs hview hviews ih =>
    cases hviews with
    | nil => exact .cons hview .nil
    | cons hsecond hothers =>
      rw [spaced, spacedApart] at ih
      rw [spaced, spacedApart, List.intersperse_cons_cons, List.intersperse_cons_cons]
      exact .cons hview (.cons (drawnAs_text hspace) ih)

theorem drawnBody_block {P : Html → Saved → Prop} (hspace : P (.text " ") (.text " "))
    {items : List Node} {xs : List Saved} (h : List.Forall₂ (Drawn highlight P) items xs) :
    DrawnBody highlight P (.block items) (spacedApart xs) := by
  obtain ⟨views, hviews, hall⟩ := drawn_items h
  have hblock : (sketchContent false (.block items)).result = .ok (.fragment (spaced views)) := by
    rw [sketchContent, Traced.result_bind_of_ok hviews]
    rfl
  refine ⟨spaced views, ?_, drawnAs_spaced hspace hall⟩
  rw [sketchBody, Traced.result_bind_of_ok (Traced.result_see _), Traced.result_bind_of_ok hblock]
  rfl

theorem drawnBody_string {P : Html → Saved → Prop} {value : String}
    (h : P (.text value) (.text value)) :
    DrawnBody highlight P (.string value) (spacedApart [.text value]) :=
  ⟨[.text value], by rw [sketchBody, sketchContent]; rfl, .cons (drawnAs_text h) .nil⟩

/-! ## Elements that wrap their bodies -/

/-- An element that is shown by wrapping what its body shows, and the element that is drawn for
it. -/
structure Wraps (highlight : Highlighter) (tag : Tag) (entries : Option (List Attribute))
    (name : String) (attributes : List (String × String)) : Prop where
  drawn : ∀ id body views, (sketchBody false (some body)).result = .ok views →
    ∃ view, (sketchContent false (.element tag id entries (some body))).result = .ok view ∧
      ∀ table, html highlight (view.fill (Rendering.place .editor) table).1 =
        [.element name attributes
          (htmlAll highlight (fillAll (Rendering.place .editor) table views).1)]
  ordinary : IsOrdinary name attributes
  construct : construct? .default name (spacedAttributes attributes) = some tag.name
  known : Tag.ofName tag.name = tag

/-- What is saved of an element, from what is saved in it. -/
def savedElement (tag : Tag) (name : String) (attributes : List (String × String))
    (xs : List Saved) : Saved :=
  .element
    (.element tag 0 (constructAttributes .default name attributes)
      (some (.block (xs.map Saved.item))))
    (elementSource .default name attributes (String.intercalate "\n" (xs.map Saved.source)))

theorem isSavedAs_element {name tag : String} {attributes : List (String × String)}
    (hordinary : IsOrdinary name attributes)
    (hconstruct : construct? .default name (spacedAttributes attributes) = some tag)
    {children : List Html} {xs : List Saved} (h : List.Forall₂ IsSavedAs children xs) :
    IsSavedAs (.element name attributes children)
      (savedElement (.ofName tag) name (spacedAttributes attributes) (gathered [] xs)) := by
  obtain ⟨hsources, hmeanings⟩ := sources_deliveredAll h []
  rw [List.map_nil] at hsources hmeanings
  refine .element ?_ ?_ ?_
  · rw [delivered, hordinary.noProgram, Bool.or_false, source, hordinary.noProgramBack,
      hordinary.noFrame, hsources, if_neg (by simp), if_neg hordinary.noBreak]
    rfl
  · intro hempty
    have hlist := congrArg String.toList hempty
    rw [elementSource_of_construct hconstruct] at hlist
    simp [elementText] at hlist
  · rw [delivered, hordinary.noProgram, Bool.or_false, meaning, hordinary.noProgramBack,
      hordinary.noFrame, hmeanings, if_neg (by simp), if_neg hordinary.noBreak, hconstruct]

/-- An element that wraps its body is drawn with what is saved of the body. -/
theorem drawn_of_wraps {P : Html → Saved → Prop} {tag : Tag} {entries : Option (List Attribute)}
    {name : String} {attributes : List (String × String)}
    (h : Wraps highlight tag entries name attributes) (id : Nat) {body : Node} {xs : List Saved}
    (hbody : DrawnBody highlight P body xs) :
    Drawn highlight
      (fun node _ => ∃ children, node = .element name attributes children ∧
        List.Forall₂ P children xs)
      (.element tag id entries (some body))
      (savedElement tag name (spacedAttributes attributes) (gathered [] xs)) := by
  obtain ⟨views, hviews, hall⟩ := hbody
  obtain ⟨view, hview, hhtml⟩ := h.drawn id body views hviews
  refine ⟨view, hview, fun table => ⟨_, hhtml table, ?_, _, rfl, ?_⟩⟩
  · have hsaved := isSavedAs_element h.ordinary h.construct
      (isSavedAs_drawnAll (drawnAll hall table))
    rwa [h.known] at hsaved
  · exact (drawnAll hall table).imp fun _ _ hboth => hboth.2

/-! ## What is saved again -/

/-- A document may hold the node. -/
def IsHeldByDocument (node : Html) (_ : Saved) : Prop :=
  isLegalNode node = true

/-- What is saved is saved again of the item that it stands for, wherever this is numbered, and a
document may hold the page of that item. -/
def Resaves (highlight : Highlighter) (x : Saved) : Prop :=
  ∀ next, Drawn highlight IsHeldByDocument (x.item.renumber next).1 x

/-- What is saved of a node is saved again, if a document may hold the node and no carriage return is
left in the element that is read back. -/
def Settles (highlight : Highlighter) (node : Html) (x : Saved) : Prop :=
  isLegalNode node = true →
    (isTag node = true → '\r' ∉ (plainText (delivered false node)).toList) → Resaves highlight x

theorem resaves_text {value : String} :
    Resaves highlight (.text value) ↔ ∀ c ∈ value.toList, isLegal c = true := by
  constructor
  · intro h
    obtain ⟨view, hview, hdrawn⟩ := h 0
    rw [Saved.item, Node.renumber, sketchContent] at hview
    · cases hview
      obtain ⟨node, hnode, -, hlegal⟩ := hdrawn BlockTable.empty
      cases hnode
      exact List.all_eq_true.mp hlegal
    all_goals simp
  · intro h next
    refine ⟨.text value, ?_, drawnAs_text (List.all_eq_true.mpr h)⟩
    rw [Saved.item, Node.renumber, sketchContent]
    · rfl
    all_goals simp

theorem drawn_renumberAll {xs : List Saved} (h : ∀ x ∈ xs, Resaves highlight x) (next : Nat) :
    List.Forall₂ (Drawn highlight IsHeldByDocument)
      (Node.renumberAll next (xs.map Saved.item)).1 xs := by
  induction xs generalizing next with
  | nil => exact .nil
  | cons x xs ih =>
    rw [List.forall_mem_cons] at h
    rw [List.map_cons, Node.renumberAll]
    exact .cons (h.1 next) (ih h.2 _)

theorem settles_text {value : String} : Settles highlight (.text value) (.text value) :=
  fun hlegal _ => resaves_text.mpr (List.all_eq_true.mp hlegal)

theorem forall_resaves_gathered {xs : List Saved} (h : ∀ x ∈ xs, Resaves highlight x) :
    ∀ x ∈ gathered [] xs, Resaves highlight x :=
  forall_gathered (p := fun c => isLegal c = true) (by decide) (fun _ => resaves_text) (by simp) h

theorem areLegalNodes_of_drawn {nodes : List Html} {xs : List Saved}
    (h : List.Forall₂ IsHeldByDocument nodes xs) : areLegalNodes nodes = true := by
  induction h with
  | nil => rfl
  | cons hnode _ ih =>
    rw [areLegalNodes, ih, Bool.and_true]
    exact hnode

theorem mem_plainTexts {nodes : List Html} {node : Html} (h : node ∈ nodes) {c : Char}
    (hc : c ∈ (plainText node).toList) : c ∈ (plainTexts nodes).toList := by
  induction nodes with
  | nil => cases h
  | cons first nodes ih =>
    rw [plainTexts, String.toList_append, List.mem_append]
    rcases List.mem_cons.mp h with rfl | hmem
    · exact .inl hc
    · exact .inr (ih hmem)

/-- What is saved of nodes is saved again, if a document may hold the nodes and no carriage return is
left in what is read back of them. -/
theorem forall_resaves {nodes : List Html} {xs : List Saved}
    (h : List.Forall₂ (Settles highlight) nodes xs) (hlegal : areLegalNodes nodes = true)
    (hreturn : '\r' ∉ (plainTexts (deliveredAll false [] nodes)).toList) :
    ∀ x ∈ xs, Resaves highlight x := by
  have htags : ∀ node ∈ tags nodes, '\r' ∉ (plainText (delivered false node)).toList := by
    intro node hnode hmem
    have hback : delivered false node ∈ tags (deliveredAll false [] nodes) := by
      rw [tags_deliveredAll]
      exact List.mem_map_of_mem hnode
    exact hreturn (mem_plainTexts (List.mem_filter.mp hback).1 hmem)
  clear hreturn
  induction h with
  | nil => nofun
  | @cons node x nodes xs hnode _ ih =>
    rw [areLegalNodes, Bool.and_eq_true] at hlegal
    have hfirst : isTag node = true → '\r' ∉ (plainText (delivered false node)).toList :=
      fun htag => htags node (List.mem_filter.mpr ⟨List.mem_cons_self, htag⟩)
    have hothers : ∀ other ∈ tags nodes, '\r' ∉ (plainText (delivered false other)).toList := by
      intro other hother
      have hmem := List.mem_filter.mp hother
      exact htags other (List.mem_filter.mpr ⟨List.mem_cons_of_mem _ hmem.1, hmem.2⟩)
    exact List.forall_mem_cons.mpr ⟨hnode hlegal.1 hfirst, ih hlegal.2 hothers⟩

/-- What is saved of an element that wraps its body is saved again, if the element that is saved
wraps its body in the same way. -/
theorem settles_of_wraps {tag : Tag} {entries : Option (List Attribute)} {name : String}
    {attributes attributes' : List (String × String)}
    (h : Wraps highlight tag entries name attributes)
    (hagain : Wraps highlight tag (constructAttributes .default name (spacedAttributes attributes))
      name attributes')
    (hspaced : spacedAttributes attributes' = spacedAttributes attributes)
    (hlegal : (attributes.all fun entry => isLegalText entry.2) = true →
      (attributes'.all fun entry => isLegalText entry.2) = true)
    (id : Nat) {body : Node} {xs : List Saved}
    (hbody : DrawnBody highlight (Settles highlight) body (spacedApart xs)) :
    ∃ x, Drawn highlight (Settles highlight) (.element tag id entries (some body)) x := by
  obtain ⟨view, hview, hdrawn⟩ := drawn_of_wraps h id hbody
  refine ⟨_, view, hview, hdrawn.mono ?_⟩
  rintro _ ⟨children, rfl, hchildren⟩ hlegalNode hreturn
  rw [isLegalNode, Bool.and_eq_true] at hlegalNode
  rw [delivered, h.ordinary.noProgram, Bool.or_false, plainText] at hreturn
  have hall := forall_resaves_gathered (forall_resaves hchildren hlegalNode.2 (hreturn rfl))
  intro next
  have hspace : IsHeldByDocument (.text " ") (.text " ") := by
    show isLegalText " " = true
    decide
  obtain ⟨view', hview', hdrawn'⟩ := drawn_of_wraps hagain next
    (drawnBody_block hspace (drawn_renumberAll hall (next + 1)))
  rw [hspaced, gathered_spacedApart] at hdrawn'
  refine ⟨view', hview', hdrawn'.mono ?_⟩
  rintro _ ⟨children', rfl, hchildren'⟩
  rw [IsHeldByDocument, isLegalNode, hlegal hlegalNode.1, areLegalNodes_of_drawn hchildren']
  rfl

/-! ## The elements of prose -/

theorem wraps_wrapper {tag : Tag} {wrapper : Wrapper} (htag : Wrapper.ofTag? tag = some wrapper)
    (hprose : tag.isProse = true) (entries : Option (List Attribute)) :
    Wraps highlight tag entries wrapper.htmlName [(markerKey, wrapper.marker)] where
  drawn id body views hviews := by
    have hspaced : (false || decide (wrapper = .noSpace)) = false := by
      cases tag <;> cases htag <;> first | rfl | cases hprose
    have hsketch : (sketchContent false (.element tag id entries (some body))).result =
        .ok (.wrapped wrapper views) := by
      rw [sketchContent.eq_def]
      simp only [htag, hspaced]
      rw [Traced.result_bind_of_ok hviews]
      rfl
    exact ⟨_, hsketch, fun table => by rw [fill, html]⟩
  ordinary := isOrdinary_wrapper wrapper
  construct := by
    cases tag with
    | heading level =>
      cases htag
      revert level
      decide +kernel
    | preformatted | noSpace => cases hprose
    | _ => cases htag <;> decide +kernel
  known := by
    cases tag with
    | heading level =>
      clear htag hprose
      revert level
      decide
    | custom => cases htag
    | _ => decide

theorem wraps_panel {name : String} {kind : Panel} (h : Panel.ofName? name = some kind)
    (entries : Option (List Attribute)) :
    Wraps highlight (.custom name) entries "div"
      [(markerKey, kind.marker), ("class", "lml-" ++ kind.marker)] where
  drawn id body views hviews := by
    have hsketch : (sketchContent false (.element (.custom name) id entries (some body))).result =
        .ok (.panel kind views) := by
      rw [sketchContent.eq_def]
      simp only [Wrapper.ofTag?, h]
      rw [Traced.result_bind_of_ok hviews]
      rfl
    exact ⟨_, hsketch, fun table => by rw [fill, html]⟩
  ordinary := isOrdinary_panel kind
  construct := by
    unfold Panel.ofName? at h
    split at h <;> cases h <;> decide +kernel
  known := by
    unfold Panel.ofName? at h
    split at h <;> cases h <;> decide

/-- The target of a link. -/
def linkTarget (entries : Option (List Attribute)) : String :=
  (attributeText? entries "href").getD ""

/-- The attributes of the anchor that a link is drawn as. -/
def anchorAttributes (target : String) : List (String × String) :=
  [(markerKey, "link"), ("href", target), ("target", "_blank")]

theorem wraps_link (entries : Option (List Attribute)) :
    Wraps highlight .link entries "a" (anchorAttributes (linkTarget entries)) where
  drawn id body views hviews := by
    have hsketch : (sketchContent false (.element .link id entries (some body))).result =
        .ok (.link (linkTarget entries) views) := by
      rw [sketchContent.eq_def]
      simp only [Wrapper.ofTag?]
      rw [Traced.result_bind_of_ok hviews]
      rfl
    exact ⟨_, hsketch, fun table => by rw [fill, html]; rfl⟩
  ordinary := isOrdinary_marked (by decide) _
  construct := by
    rw [construct?, if_pos (map_toLower_self (by decide))]
    rfl
  known := by decide

/-- The target of a saved link. -/
theorem linkTarget_saved (target : String) :
    linkTarget (constructAttributes .default "a" (spacedAttributes (anchorAttributes target))) =
      spacedValue target := by
  have hlink : spacedValue "link" = "link" := by decide
  have hentries : linkEntries (spacedAttributes (anchorAttributes target)) =
      [⟨"href", .string (spacedValue target)⟩] := by
    simp [linkEntries, spacedAttributes, anchorAttributes, marker, attribute?, markerKey,
      List.lookup_cons, hlink]
  rw [constructAttributes, if_pos (map_toLower_self (by decide)), hentries]
  rfl

theorem isLegalText_spacedValue {value : String} (h : isLegalText value = true) :
    isLegalText (spacedValue value) = true := by
  rw [isLegalText, List.all_eq_true] at h ⊢
  rw [spacedValue, String.toList_ofList]
  generalize value.toList = cs at h
  induction cs with
  | nil => simp [spaceLineEnds, foldLineEnds]
  | cons c cs ih =>
    rw [List.forall_mem_cons] at h
    rw [spaceLineEnds_cons, List.forall_mem_append]
    refine ⟨?_, ih h.2⟩
    split
    · simp
    · rw [List.forall_mem_singleton, spacedChar]
      split
      · decide
      · exact h.1

/-- A link is drawn, and what is saved of it is saved again. -/
theorem drawn_link {entries : Option (List Attribute)} (id : Nat) {body : Node} {xs : List Saved}
    (hbody : DrawnBody highlight (Settles highlight) body (spacedApart xs)) :
    ∃ x, Drawn highlight (Settles highlight) (.element .link id entries (some body)) x := by
  have hagain : Wraps highlight _ _ _ _ := wraps_link
    (constructAttributes .default "a" (spacedAttributes (anchorAttributes (linkTarget entries))))
  rw [linkTarget_saved] at hagain
  refine settles_of_wraps (wraps_link entries) hagain ?_ ?_ id hbody
  · simp [anchorAttributes, spacedAttributes, spacedValue_idem]
  · intro hlegal
    simp only [anchorAttributes, List.all_cons, Bool.and_eq_true] at hlegal ⊢
    exact ⟨hlegal.1, isLegalText_spacedValue hlegal.2.1, hlegal.2.2⟩

/-! ## Code blocks -/

theorem sketch_code {id : Nat} {attributes : Option (List Attribute)} {body : Option Node}
    {source : CodeSource} (h : codeSource id attributes body = .ok source) :
    (sketchContent false (.element .code id attributes body)).result = .ok (.code source) := by
  rw [sketchContent.eq_def]
  simp only [Wrapper.ofTag?, h]
  rfl

/-- A block in an editor. -/
theorem drawnAs_code (hhighlight : highlight.Faithful) {P : Html → Saved → Prop}
    {source : CodeSource} {x : Saved}
    (h : ∀ block : CodeBlock, block.source = source → block.controls = none →
      block.saved highlight = x ∧ P (block.html highlight) x) :
    DrawnAs highlight P (.code source) x := by
  intro table
  obtain ⟨hsaved, hP⟩ := h (Rendering.place .editor table source).1 rfl rfl
  refine ⟨_, rfl, ?_, hP⟩
  rw [← hsaved]
  exact CodeBlock.isSavedAs_html hhighlight _

/-- The attributes that are saved of a block may be held by a document if its attributes may. -/
theorem isLegalText_savedAttributes {block : CodeBlock}
    (h : isLegalText block.source.attributes = true) : isLegalText block.savedAttributes = true := by
  rw [CodeBlock.savedAttributes, codeAttributes, block.attribute?_frame]
  dsimp only
  split
  · decide
  · exact isLegalText_spacedValue h

/-- The code block that is met in a saved code element. -/
theorem codeSource_saved {text : String} (h : IsKeptList text) (hlegal : isLegalText text = true)
    (id : Nat) (program : String) :
    ∃ source, codeSource id (some (entriesOf text)) (some (.block [.string program])) = .ok source ∧
      source.code = program ∧ source.attributes = text ∧ isLegalText source.lang = true := by
  obtain ⟨hentries, htext, hsource⟩ := h.entriesOf
  rw [codeSource, hsource]
  refine ⟨_, rfl, ?_, rfl, ?_⟩
  · simp [bodyText, Node.text_eq]
  · show isLegalText ((attributeText? (some (entriesOf text)) "lang").getD "") = true
    cases hlang : attributeText? (some (entriesOf text)) "lang" with
    | none => rfl
    | some lang =>
      rw [isLegalText, List.all_eq_true] at hlegal ⊢
      intro c hc
      rw [← htext] at hlegal
      exact hlegal c (mem_of_attributeText hentries hlang hc)

/-- A code block is drawn, and what is saved of it is saved again. -/
theorem drawn_code (hhighlight : highlight.Faithful) (hkeeps : highlight.KeepsLegal)
    {attributes : Option (List Attribute)} (h : AreEntries attributes)
    (hfinite : ∀ x ∈ Node.numbersOfHead attributes, x.isFinite = true) (id : Nat) (body : Node) :
    ∃ x, Drawn highlight (Settles highlight) (.element .code id attributes (some body)) x := by
  obtain ⟨source, hsource⟩ := codeSource_eq_ok h id (some body)
  -- the key of the block does not matter for what is saved of it
  have hsame : ∀ block other : CodeBlock, block.source = source → other.source = source →
      block.saved highlight = other.saved highlight := by
    intro block other hblock hother
    refine CodeBlock.saved_eq highlight ?_ ?_
    · rw [CodeBlock.programBack, CodeBlock.programBack, hblock, hother]
    · rw [CodeBlock.savedAttributes, CodeBlock.savedAttributes, codeAttributes, codeAttributes,
        block.attribute?_frame, other.attribute?_frame, hblock, hother]
  refine ⟨(CodeBlock.mk source ⟨"", "", 0⟩ none).saved highlight, .code source, sketch_code hsource,
    drawnAs_code hhighlight fun block hblock hcontrols => ⟨hsame _ _ hblock rfl, ?_⟩⟩
  rw [hsame _ block rfl hblock]
  intro hlegal hreturn
  have hkept : IsKeptList block.savedAttributes := by
    refine isKeptList_codeAttributes h hfinite hsource ?_
    rw [block.attribute?_frame, hblock]
  rw [CodeBlock.isLegalNode_html, Bool.and_eq_true, Bool.and_eq_true] at hlegal
  replace hreturn : '\r' ∉ (block.programBack highlight).toList := fun hmem =>
    hreturn rfl (block.mem_plainText_html highlight hmem)
  have hprogram : isLegalText (block.programBack highlight) = true :=
    isLegalText_deliveredAll true hlegal.2.2
  have hsaved := isLegalText_savedAttributes hlegal.1
  intro next
  obtain ⟨source', hsource', hcode, hattributes, hlang⟩ :=
    codeSource_saved hkept hsaved next (block.programBack highlight)
  refine ⟨.code source', sketch_code hsource',
    drawnAs_code hhighlight fun block' hblock' hcontrols' => ⟨?_, ?_⟩⟩
  · refine CodeBlock.saved_eq highlight ?_ ?_
    · rw [block'.programBack_eq hhighlight, hblock', hcode]
      rwa [hblock', hcode]
    · refine codeAttributes_of_isKeptList hkept ?_
      rw [block'.attribute?_frame, hblock', hattributes]
  · rw [IsHeldByDocument, CodeBlock.isLegalNode_html, hblock', hcode,
      hattributes, hsaved, hlang, hkeeps _ _ hlang hprogram]
    rfl

/-! ## Items -/

/-- An element of prose is drawn if its body is. -/
theorem drawn_element (hhighlight : highlight.Faithful) (hkeeps : highlight.KeepsLegal) {tag : Tag}
    (hprose : tag.isProse = true) {attributes : Option (List Attribute)}
    (h : AreEntries attributes) (hfinite : ∀ x ∈ Node.numbersOfHead attributes, x.isFinite = true)
    (id : Nat) {body : Node} {xs : List Saved}
    (hbody : DrawnBody highlight (Settles highlight) body (spacedApart xs)) :
    ∃ x, Drawn highlight (Settles highlight) (.element tag id attributes (some body)) x := by
  have hwrapper : ∀ {wrapper : Wrapper}, Wrapper.ofTag? tag = some wrapper →
      ∃ x, Drawn highlight (Settles highlight) (.element tag id attributes (some body)) x :=
    fun hwrapper => settles_of_wraps (wraps_wrapper hwrapper hprose attributes)
      (wraps_wrapper hwrapper hprose _) rfl (fun hlegal => hlegal) id hbody
  cases tag with
  | link => exact drawn_link id hbody
  | code => exact drawn_code hhighlight hkeeps h hfinite id body
  | custom name =>
    obtain ⟨kind, hkind⟩ : ∃ kind, Panel.ofName? name = some kind := by
      simp only [Tag.isProse, Bool.or_eq_true, decide_eq_true_eq] at hprose
      rcases hprose with rfl | rfl <;> exact ⟨_, rfl⟩
    exact settles_of_wraps (wraps_panel hkind attributes) (wraps_panel hkind _) rfl
      (fun hlegal => hlegal) id hbody
  | button | input | image | preformatted | noSpace => cases hprose
  | _ => exact hwrapper rfl

theorem exists_drawn {P : Html → Saved → Prop} {items : List Node}
    (h : ∀ item ∈ items, ∃ x, Drawn highlight P item x) :
    ∃ xs, List.Forall₂ (Drawn highlight P) items xs := by
  induction items with
  | nil => exact ⟨[], .nil⟩
  | cons item items ih =>
    rw [List.forall_mem_cons] at h
    obtain ⟨x, hx⟩ := h.1
    obtain ⟨xs, hxs⟩ := ih h.2
    exact ⟨x :: xs, .cons hx hxs⟩

/-- Every item of prose is drawn, and what is saved of it is saved again. -/
theorem drawn_of_isItem (hhighlight : highlight.Faithful) (hkeeps : highlight.KeepsLegal)
    {room : Nat} {item : Node} (h : IsItem room item)
    (hprose : ∀ node ∈ item.walk, node.isProse = true)
    (hfinite : ∀ x ∈ item.numbers, x.isFinite = true) :
    ∃ x, Drawn highlight (Settles highlight) item x := by
  induction h with
  | string value =>
    refine ⟨.text value, .text value, ?_, drawnAs_text settles_text⟩
    rw [sketchContent]
    rfl
  | number value =>
    refine ⟨.text _, .text (String.ofList value.text), ?_, drawnAs_text settles_text⟩
    rw [sketchContent]
    rfl
  | @braced room id tag attributes items _ hattributes _ ih =>
    rw [Node.walk, Node.walk, List.forall_mem_cons, List.forall_mem_cons] at hprose
    rw [Node.numbers, List.forall_mem_append, Node.numbersOfBody, Node.numbers] at hfinite
    obtain ⟨htag, -, hitems⟩ := hprose
    have hbody : ∀ item ∈ items, ∃ x, Drawn highlight (Settles highlight) item x := by
      refine fun item hitem => ih item hitem (fun node hnode => hitems node ?_)
        (fun x hx => hfinite.2 x (Node.mem_numbersOfAll.mpr ⟨item, hitem, hx⟩))
      rw [Node.walkAll_eq_flatMap]
      exact List.mem_flatMap.mpr ⟨item, hitem, hnode⟩
    obtain ⟨xs, hxs⟩ := exists_drawn hbody
    exact drawn_element hhighlight hkeeps htag hattributes hfinite.1 id
      (drawnBody_block settles_text hxs)
  | @bare room id tag attributes value _ hattributes _ =>
    rw [Node.walk, List.forall_mem_cons] at hprose
    rw [Node.numbers, List.forall_mem_append] at hfinite
    exact drawn_element hhighlight hkeeps hprose.1 hattributes hfinite.1 id
      (drawnBody_string settles_text)

end View

end ChatMarkup
