import ChatMarkup.Proofs.Source.Numbering
import ChatMarkup.Proofs.Tree.Update
import ChatMarkup.Proofs.View.BlockPage

/-!
# Attributes that come back from a page

A page has the attribute list of each code element in an attribute value of its own, and an imported
page brings it back. A list without tabs and line ends is what it was, in its place and in its order;
a block without a list is given one with the language of the import.

* `attributesAt_codeSource`: the attributes of the element behind a block;
* `ComesBack`: what becomes of them;
* `importPage_keeps_lists`: the attributes of the code elements of an imported page.
-/

namespace ChatMarkup

open Html Source

/-! ## The element behind a block -/

/-- The attributes of the element behind a block. -/
theorem attributesAt_codeSource {tree : Node} (h : IsDocument tree) (hnodup : tree.ids.Nodup)
    {source : CodeSource} (hsource : source ∈ tree.codeSources) :
    ∃ attributes body, tree.attributesAt source.node = some attributes ∧ AreEntries attributes ∧
      View.codeSource source.node attributes body = .ok source := by
  obtain ⟨node, hmem, hnode⟩ := List.mem_filterMap.mp ((codeSources_sublist h).subset hsource)
  obtain ⟨element, helement, hid, -⟩ := element?_of_codeSource? hnode
  have hfound := Node.findElement_of_mem hnodup hmem helement
  have hentries := h.areEntries node hmem
  cases node with
  | element tag id attributes body =>
    cases tag with
    | code =>
      cases helement
      cases hid
      refine ⟨attributes, body, ?_, hentries, eq_ok_of_toOption hnode⟩
      rw [Node.attributesAt_eq, hfound]
      rfl
    | _ => cases hnode
  | _ => cases hnode

/-! ## Lists that come back -/

/-- Whether no tab and no line end stands in an attribute value. -/
def lacksBreaks : Node → Bool
  | .string value | .identifier value => value.toList.all staysSpaced
  | _ => true

theorem spacedNode_of_lacksBreaks {value : Node} (h : lacksBreaks value = true) :
    spacedNode value = value := by
  cases value with
  | string value | identifier value =>
    rw [lacksBreaks, List.all_eq_true] at h
    rw [spacedNode, spacedValue_self h]
  | _ => rfl

/-- What an imported page makes of the attributes of a code element: a language if there are none,
and otherwise the same attributes in the same order, if no tab and no line end stands in their
values. -/
structure ComesBack (attributes back : Option (List Attribute)) : Prop where
  absent : attributes = none ∨ attributes = some [] → back = some [⟨"lang", .string "lugha"⟩]
  present : ∀ entries, attributes = some entries → entries ≠ [] →
    (∀ entry ∈ entries, lacksBreaks entry.value = true) →
      ∃ list, back = some list ∧ Node.sameAttributes list entries = true

/-- A list with something in it is not blank. -/
theorem isBlankText_listText {entries : List Attribute} (h : ∀ entry ∈ entries, IsEntry entry)
    (hne : entries ≠ []) : isBlankText (listText entries) = false := by
  have hhead := head?_listText h
  cases entries with
  | nil => exact absurd rfl hne
  | cons entry entries =>
    obtain ⟨c, cs, hkey, hc, -⟩ := (h entry List.mem_cons_self).key
    rw [isBlankText, toList_listText_cons, entryText, String.toList_append, String.toList_append,
      hkey, List.cons_append, List.cons_append, List.cons_append, List.all_cons,
      isBlank_of_isIdentifierStart hc, Bool.false_and]

/-- The attributes of a block that is read back. -/
theorem comesBack_savedAttributes {id : Nat} {attributes : Option (List Attribute)}
    {body : Option Node} (h : AreEntries attributes)
    (hfinite : ∀ x ∈ Node.numbersOfHead attributes, x.isFinite = true) {block : CodeBlock}
    (hsource : View.codeSource id attributes body = .ok block.source) :
    ComesBack attributes (some (entriesOf block.savedAttributes)) := by
  have hlang : entriesOf ("lang=" ++ quote "lugha") = [⟨"lang", .string "lugha"⟩] :=
    entriesOf_eq (readAttributes_lang "lugha")
  have hsaved : block.savedAttributes = if isBlankText (spacedValue block.source.attributes) then
      "lang=" ++ quote "lugha" else spacedValue block.source.attributes := by
    rw [CodeBlock.savedAttributes, codeAttributes, block.attribute?_frame]
    rfl
  obtain ⟨_, rfl, hattributes, hentries, hnumbers⟩ := attributes_codeSource h hfinite hsource
  constructor
  · intro habsent
    have hnothing : attributes.getD [] = [] := by
      rcases habsent with rfl | rfl <;> rfl
    rw [hsaved, hattributes, hnothing, if_pos (by decide), hlang]
  · rintro entries rfl hne hlacks
    rw [Option.getD_some] at hattributes hentries hnumbers
    have hspaced : entries.map spacedEntry = entries := by
      conv => rhs; rw [← List.map_id entries]
      refine List.map_congr_left fun entry hentry => ?_
      rw [spacedEntry, spacedNode_of_lacksBreaks (hlacks entry hentry)]
      rfl
    obtain ⟨back, hread, hsame, -⟩ := readAttributes_listText hentries hnumbers
    refine ⟨back, ?_, hsame⟩
    rw [hsaved, hattributes, spacedValue_listText hentries hnumbers, hspaced,
      isBlankText_listText hentries hne, if_neg Bool.false_ne_true, entriesOf_eq hread]

/-! ## Imported pages -/

/-- The attributes of the code elements of an imported page are those of the elements behind the
blocks of the view, in their order. -/
theorem importPage_keeps_lists {source : String} {tree : Node}
    (hread : Source.read source = .ok tree) {mode : Mode} {table : BlockTable}
    {view : View CodeBlock} (hview : (Rendering.render mode table tree).view = .ok view)
    (hfinite : ∀ block ∈ view.blocks, ∀ attributes,
      tree.attributesAt block.source.node = some attributes →
        ∀ x ∈ Node.numbersOfHead attributes, x.isFinite = true)
    {highlight : Highlighter} (hhighlight : highlight.Faithful) {text : String}
    (himport : importPage .default (view.page highlight) = .ok text) :
    ∃ back, Source.read text = .ok back ∧
      List.Forall₂ (fun block list => ∃ attributes,
        tree.attributesAt block.source.node = some attributes ∧ ComesBack attributes list)
        view.blocks back.codeLists := by
  have hdocument := isDocument_of_read hread
  have hbehind : ∀ block ∈ view.blocks, ∃ attributes,
      tree.attributesAt block.source.node = some attributes ∧
        IsBrought (spacedValue block.source.attributes) ∧
        ComesBack attributes (some (entriesOf block.savedAttributes)) := by
    intro block hblock
    obtain ⟨attributes, body, hat, hentries, hsource⟩ :=
      attributesAt_codeSource hdocument (nodup_ids_of_read hread)
        (Rendering.mem_codeSources_of_render hdocument hview block hblock)
    have hnumbers := hfinite block hblock attributes hat
    exact ⟨attributes, hat, isBrought_attributes hentries hnumbers hsource,
      comesBack_savedAttributes hentries hnumbers hsource⟩
  have hlists : ∀ block ∈ view.blocks, IsBrought (spacedValue block.source.attributes) := by
    intro block hblock
    obtain ⟨_, _, hbrought, _⟩ := hbehind block hblock
    exact hbrought
  refine ⟨_, View.read_importPage hhighlight (Rendering.levels_of_render hdocument hview) hlists
    himport, ?_⟩
  have hback : ∀ block : CodeBlock, (block.elementBack highlight).attributes? =
      some (entriesOf block.savedAttributes) := by
    intro block
    rw [CodeBlock.elementBack, Node.attributes?, constructAttributes, if_neg (by decide +kernel),
      if_pos block.isCodeContainer_frame]
    rfl
  rw [Node.codeLists_renumbered, Node.codeLists_ofItems, View.codes_pageBack, List.map_map,
    List.forall₂_map_right_iff, List.forall₂_same]
  intro block hblock
  obtain ⟨attributes, hat, -, hlist⟩ := hbehind block hblock
  rw [Function.comp_apply, hback]
  exact ⟨attributes, hat, hlist⟩

/-- Attributes of every kind, an empty list and none. -/
def listedSource : String :=
  "code[lang=`lugha`, run=true, width=2.5, title=`\\\"<]> &`, on=f(1, `)`)] \x7b `a` \x7d" ++
    " p \x7b code[] \x7b `b` \x7d code \x7b `c` \x7d \x7d"

theorem importPage_keeps_lists_listed :
    ∃ tree view text,
      (Source.read listedSource = .ok tree ∧
        (Rendering.render .editor .empty tree).view = .ok view ∧
        (∀ block ∈ view.blocks, ∀ attributes,
          tree.attributesAt block.source.node = some attributes →
            ∀ x ∈ Node.numbersOfHead attributes, x.isFinite = true) ∧
        Highlighter.plain.Faithful ∧ importPage .default (view.page .plain) = .ok text) ∧
      view.blocks.length = 3 ∧ ∃ back, Source.read text = .ok back ∧
        List.Forall₂ (fun block list => ∃ attributes,
          tree.attributesAt block.source.node = some attributes ∧ ComesBack attributes list)
          view.blocks back.codeLists := by
  have hrun : ((Source.read listedSource).toOption.bind fun tree =>
      (Rendering.render .editor .empty tree).view.toOption.bind fun view =>
        (importNodes .default (view.pageBack .plain)).toOption.map fun _ =>
          (areLegalNodes (view.html .plain) && view.blocks.length == 3,
            view.blocks.all fun block => (tree.attributesAt block.source.node).all fun attributes =>
              (Node.numbersOfHead attributes).all Number.isFinite)) = some (true, true) := by
    rw [Source.read_of_toList (by
      delta listedSource
      rw [String.toList_append, String.toList_ofList, String.toList_ofList])]
    decide +kernel
  obtain ⟨tree, hread, hrun⟩ := Option.bind_eq_some_iff.mp hrun
  obtain ⟨view, hview, hrun⟩ := Option.bind_eq_some_iff.mp hrun
  obtain ⟨text, hnodes, hfacts⟩ := Option.map_eq_some_iff.mp hrun
  obtain ⟨hchecks, hnumbers⟩ := Prod.mk.inj hfacts
  obtain ⟨hlegal, hlength⟩ := Bool.and_eq_true_iff.mp hchecks
  replace hread := Source.eq_ok_of_toOption hread
  replace hview := Source.eq_ok_of_toOption hview
  have himport : importPage .default (view.page .plain) = .ok text := by
    rw [View.importPage_page Highlighter.faithful_plain, if_pos hlegal]
    exact Source.eq_ok_of_toOption hnodes
  have hfinite : ∀ block ∈ view.blocks, ∀ attributes,
      tree.attributesAt block.source.node = some attributes →
        ∀ x ∈ Node.numbersOfHead attributes, x.isFinite = true := by
    intro block hblock attributes hat
    have hall := List.all_eq_true.mp hnumbers block hblock
    rw [hat, Option.all_some] at hall
    exact List.all_eq_true.mp hall
  obtain ⟨back, hback, hlists⟩ :=
    importPage_keeps_lists hread hview hfinite Highlighter.faithful_plain himport
  exact ⟨tree, view, text, ⟨hread, hview, hfinite, Highlighter.faithful_plain, himport⟩,
    eq_of_beq hlength, back, hback, hlists⟩

/-- What is saved of a source in an editor. -/
def saved? (source : String) : Option String :=
  (Source.read source).toOption.bind fun tree =>
    (Rendering.render .editor .empty tree).view.toOption.bind fun view =>
      (importPage .default (view.page .plain)).toOption

/-- The attributes of the code elements of a source as they are written. -/
def writtenLists (source : String) : Option (List (Option (List String))) :=
  (Source.read source).toOption.map fun tree =>
    tree.codeLists.map fun list => list.map fun entries => entries.map entryText

/-- A code element with a number that is too long for any finite one. -/
def longList : String :=
  "code[size=-1" ++ (String.ofList (List.replicate 309 '0') ++ "] \x7b `a` \x7d")

/-- A block without a list comes back with one, a line end in a value does not come back, and an
infinite number leaves a source that cannot be read. -/
theorem importPage_changes_lists :
    (writtenLists "code \x7b `a` \x7d" = some [none] ∧
      (saved? "code \x7b `a` \x7d").bind writtenLists = some [some ["lang=`lugha`"]]) ∧
    (writtenLists "code[title=`a\nb`] \x7b `a` \x7d" = some [some ["title=`a\nb`"]] ∧
      (saved? "code[title=`a\nb`] \x7b `a` \x7d").bind writtenLists =
        some [some ["title=`a b`"]]) ∧
    (writtenLists longList).isSome = true ∧ (saved? longList).isSome = true ∧
      (saved? longList).bind writtenLists = none := by
  have hlong : longList.toList =
      "code[size=-1".toList ++ (List.replicate 309 '0' ++ "] \x7b `a` \x7d".toList) := by
    rw [longList, String.toList_append, String.toList_append, String.toList_ofList,
      String.toList_ofList, String.toList_ofList]
  have hread := Source.read_of_toList hlong
  simp only [saved?, writtenLists, View.importPage_page Highlighter.faithful_plain, hread]
  decide +kernel

end ChatMarkup
