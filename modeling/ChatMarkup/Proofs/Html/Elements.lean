import ChatMarkup.Proofs.Html.Conservation
import ChatMarkup.Proofs.Html.Settled

/-!
# The elements that an import makes

What is imported holds one element for every element that was walked and is marked as a construct,
and no other. Texts, addresses and titles are quoted, so that they stay strings whatever is in them.
The attribute list of a code block is spliced in as it is, so that this is true only if it is a list:
one that ends its own brackets brings elements with it.

* `headsOfAll_meaning`: the heads of what is meant, by induction over the tree;
* `importPage_elements`: the elements of what was imported, in their order;
* `importPage_splices_list`: a page on which one code block comes to be two.
-/

namespace ChatMarkup.Html

open Source

/-- The head of the element that an HTML element comes to be, if it is the element of a construct. -/
def headOf? (options : ImportOptions) (element : String × List (String × String)) :
    Option (Tag × Option (List Attribute)) :=
  (construct? options element.1 element.2).map fun tag =>
    (.ofName tag, constructAttributes options element.1 element.2)

theorem construct?_eq_none {options : ImportOptions} {name : String}
    (hlink : name.map Char.toLower ≠ "a") (h : constructsOf name = [])
    (attributes : List (String × String)) :
    construct? options name attributes = none := by
  rw [construct?, if_neg hlink, h]
  rfl

/-- Programs and line breaks are no constructs. -/
theorem headOf?_of_skipped {options : ImportOptions} {name : String}
    (h : name.map Char.toLower = "pre" ∨ name.map Char.toLower = "br")
    (attributes : List (String × String)) :
    headOf? options (name, attributes) = none := by
  have hnone : construct? options name attributes = none := by
    rcases h with h | h <;>
      exact construct?_eq_none (by simp [h]) (by simp [constructsOf, h]) attributes
  rw [headOf?, hnone]
  rfl

mutual

/-- The elements that a node means are those that are walked in it and are marked as constructs. -/
theorem headsOfAll_meaning (options : ImportOptions) :
    ∀ node : Html,
      Node.headsOfAll (meaning options node) = (walked node).filterMap (headOf? options)
  | .text value => by
    rw [meaning, walked]
    split <;> simp
  | .element name attributes children => by
    rw [meaning, walked, List.filterMap_cons]
    by_cases hprogram : name.map Char.toLower = "pre" ∧ isCodeText attributes
    · rw [if_pos hprogram, if_pos (.inl hprogram), headOf?_of_skipped (.inl hprogram.1)]
      simp
    by_cases hbreak : name.map Char.toLower = "br"
    · rw [if_neg hprogram, if_pos hbreak, if_pos (.inr hbreak), headOf?_of_skipped (.inr hbreak)]
      simp
    -- The element comes first, if it is one, and then those in it: an import keeps their order.
    rw [if_neg hprogram, if_neg hbreak, if_neg (not_or.mpr ⟨hprogram, hbreak⟩),
      ← headsOfAll_meanings options (isCodeContainer name attributes) children, headOf?]
    cases construct? options name attributes <;> simp
  | .aside => by simp [meaning, walked]

theorem headsOfAll_meanings (options : ImportOptions) (dropFrame : Bool) :
    ∀ nodes : List Html,
      Node.headsOfAll (meanings options dropFrame nodes) =
        (walkedAll dropFrame nodes).filterMap (headOf? options)
  | [] => by simp [meanings, walkedAll]
  | node :: nodes => by
    have hnodes := headsOfAll_meanings options dropFrame nodes
    rw [meanings, walkedAll]
    split
    · exact hnodes
    · rw [Node.headsOfAll_append, List.filterMap_append, headsOfAll_meaning options node, hnodes]

end

theorem construct?_of_isCodeContainer {options : ImportOptions} {name : String}
    {attributes : List (String × String)} (h : isCodeContainer name attributes = true) :
    construct? options name attributes = some "code" := by
  simp only [isCodeContainer, Bool.and_eq_true, Bool.or_eq_true, decide_eq_true_eq] at h
  obtain ⟨hname, hmarker⟩ := h
  rw [construct?, hmarker]
  rcases hname with hname | hname <;> simp [constructsOf, hname]

/-- The elements that come to be code are the frames of code blocks. -/
theorem isCode_headOf? (options : ImportOptions) (element : String × List (String × String)) :
    ((headOf? options element).map fun head => decide (head.1 = .code)).getD false =
      isCodeContainer element.1 element.2 := by
  rw [headOf?, Option.map_map]
  cases hcode : isCodeContainer element.1 element.2 with
  | true =>
    rw [construct?_of_isCodeContainer hcode]
    exact decide_eq_true (show Tag.ofName "code" = .code by decide)
  | false =>
    cases htag : construct? options element.1 element.2 with
    | none => rfl
    | some tag => exact decide_eq_false (ofName_ne_code hcode htag)

/-! ## Pages -/

/-- The elements of what was imported are those that were walked and are marked as constructs, in
their order, and its code elements are the frames of code blocks among them: if these bring attribute
lists, no text and no attribute can bring another element. -/
theorem importPage_elements {options : ImportOptions} {page text : String} {tree : Node}
    (himport : importPage options page = .ok text) (hread : Source.read text = .ok tree) :
    ∃ nodes, read? (ofBrowser page) = some nodes ∧
      ((∀ element ∈ walkedAll false nodes, BringsList element) →
        tree.codeCount =
            (walkedAll false nodes).countP (fun element => isCodeContainer element.1 element.2) ∧
          tree.heads = (walkedAll false nodes).filterMap (headOf? options)) := by
  rw [importPage] at himport
  split at himport
  · rename_i nodes hnodes
    refine ⟨nodes, hnodes, fun hwalked => ?_⟩
    have hheads : tree.heads = (walkedAll false nodes).filterMap (headOf? options) := by
      rw [eq_of_read_importNodes hwalked himport hread, Node.heads_renumbered, Node.heads_ofItems,
        headsOfAll_meanings]
    refine ⟨?_, hheads⟩
    rw [Node.codeCount_eq, hheads, List.countP_filterMap]
    exact List.countP_congr fun element _ => by rw [isCode_headOf?]
  · cases himport

/-- Markup in a text, in the address and the title of a link, and in a part of the frame of a code
block. -/
def hostileNodes : List Html :=
  [.element "p" [(markerKey, "p")] [.text "` \x7d code[lang=lugha, run=true] \x7b `a` \x7d"],
    .element "a" [("href", "`] \x7b \x7d code[run=true"), ("title", "`] \x7b \x7d code[run=true")]
      [.text "b"],
    .element "div" [(markerKey, "code"), ("data-attr", "lang=text")]
      [.element "div" [] [.element "div" [(markerKey, "code")] [.text "Run"]],
        .element "pre" [(markerKey, codeMarker)] [.element "code" [] [.text "c"]]]]

/-- What is imported of them. -/
def hostileSource : String :=
  "p \x7b `\\` \x7d code[lang=lugha, run=true] \x7b \\`a\\` \x7d` \x7d\n\n" ++
    "link[href=`\\`] \x7b \x7d code[run=true`, title=`\\`] \x7b \x7d code[run=true`]" ++
    " \x7b `b` \x7d\n" ++
    "code[lang=text] \x7b\n`c`\n\x7d"

theorem importPage_elements_hostile :
    importPage .default (write hostileNodes) = .ok hostileSource ∧
      (∀ element ∈ walkedAll false hostileNodes, BringsList element) ∧
      ∃ tree, Source.read hostileSource = .ok tree ∧ tree.codeCount = 1 ∧
        tree.heads = (walkedAll false hostileNodes).filterMap (headOf? .default) := by
  have hproper : AreProper hostileNodes := by
    simp only [hostileNodes, AreProper, Proper]
    decide
  have hsettled : areSettled hostileNodes = true := by decide
  have hjoined : joined hostileNodes = hostileNodes := by
    simp [hostileNodes, joined, joinedAll, joinedNode, textNode]
  have himport : importPage .default (write hostileNodes) = .ok hostileSource := by
    rw [importPage_write_settled hproper hsettled, hjoined]
    exact eq_ok_of_toOption (by decide +kernel)
  have hwalked : ∀ element ∈ walkedAll false hostileNodes, BringsList element := by
    decide +kernel
  have hsome : (Source.read hostileSource).toOption.isSome = true := by
    rw [Source.read_of_toList (by
      delta hostileSource
      rw [String.toList_append, String.toList_append, String.toList_append, String.toList_ofList,
        String.toList_ofList, String.toList_ofList, String.toList_ofList])]
    decide +kernel
  obtain ⟨tree, htree⟩ := Option.isSome_iff_exists.mp hsome
  have hread := eq_ok_of_toOption htree
  obtain ⟨nodes, hnodes, helements⟩ := importPage_elements himport hread
  rw [ofBrowser_write hproper, read?_write_settled hproper hsettled, hjoined] at hnodes
  cases hnodes
  obtain ⟨hcount, hheads⟩ := helements hwalked
  exact ⟨himport, hwalked, tree, hread, hcount.trans (by decide +kernel), hheads⟩

/-- A code block whose attribute list ends its own brackets. -/
def splicedNodes : List Html :=
  [.element "div"
      [(markerKey, "code"),
        ("data-attr", "lang=text] \x7b `a` \x7d code[lang=lugha, run=true")]
      [.element "pre" [(markerKey, codeMarker)] [.element "code" [] [.text "b"]]]]

/-- An attribute list that is none by itself brings a code element with it: one code block is walked,
and there are two in what was imported. The program belongs to the second, which asks to be run. -/
theorem importPage_splices_list :
    ∃ text tree, read? (ofBrowser (write splicedNodes)) = some splicedNodes ∧
      importPage .default (write splicedNodes) = .ok text ∧ Source.read text = .ok tree ∧
      (walkedAll false splicedNodes).countP
          (fun element => isCodeContainer element.1 element.2) = 1 ∧
      tree.codeCount = 2 ∧
      tree.codeLists.map (fun list => list.map fun entries => entries.map entryText) =
        [some ["lang=text"], some ["lang=lugha", "run=true"]] := by
  have hproper : AreProper splicedNodes := by
    simp only [splicedNodes, AreProper, Proper]
    decide
  have hsettled : areSettled splicedNodes = true := by decide
  have hjoined : joined splicedNodes = splicedNodes := by
    simp [splicedNodes, joined, joinedAll, joinedNode, textNode]
  have hpage : read? (ofBrowser (write splicedNodes)) = some splicedNodes := by
    rw [ofBrowser_write hproper, read?_write_settled hproper hsettled, hjoined]
  have hrun : ((importNodes .default splicedNodes).toOption.bind fun text =>
      (Source.read text).toOption.map fun tree =>
        (tree.codeCount, tree.codeLists.map fun list =>
          list.map fun entries => entries.map entryText)) =
      some (2, [some ["lang=text"], some ["lang=lugha", "run=true"]]) := by
    decide +kernel
  obtain ⟨text, htext, hrun⟩ := Option.bind_eq_some_iff.mp hrun
  obtain ⟨tree, hread, hfacts⟩ := Option.map_eq_some_iff.mp hrun
  obtain ⟨hcount, hlists⟩ := Prod.mk.inj hfacts
  have himport : importPage .default (write splicedNodes) = .ok text := by
    rw [importPage_write_settled hproper hsettled, hjoined]
    exact eq_ok_of_toOption htext
  exact ⟨text, tree, hpage, himport, eq_ok_of_toOption hread, by decide +kernel, hcount, hlists⟩

end ChatMarkup.Html
