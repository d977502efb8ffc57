import ChatMarkup.Proofs.Html.Meaning
import ChatMarkup.Proofs.Tree.Contents

/-!
# Text that an import keeps

The text of an imported tree, read again, is that of the tree: of its texts as they are kept, and of
the programs in its code blocks. Two things are left out: the parts of the frame of a code block,
and what stands in a line break, which should have no content.

* `join_strings_meaning`: the strings of what is meant are the text that is kept;
* `importNodes_conserves`: reading what was imported gives that text;
* `importPage_loses_break`: a page with text in a line break.
-/

namespace ChatMarkup.Html

open Source

mutual

/-- The text of a node that an import keeps. Whether it keeps what stands in line breaks as well is
up to `inBreaks`. -/
def conserved (inBreaks : Bool) (options : ImportOptions) : Html → String
  | .text value => keptText options value
  | .element name attributes children =>
    if name.map Char.toLower = "pre" ∧ isCodeText attributes then programText children
    else if name.map Char.toLower = "br" ∧ inBreaks = false then ""
    else conservedAll inBreaks options (isCodeContainer name attributes) children
  | .aside => ""

/-- The text of nodes that an import keeps; parts of a frame may be left out. -/
def conservedAll (inBreaks : Bool) (options : ImportOptions) (dropFrame : Bool) :
    List Html → String
  | [] => ""
  | node :: nodes =>
    if dropFrame && isFrame node then conservedAll inBreaks options dropFrame nodes
    else conserved inBreaks options node ++ conservedAll inBreaks options dropFrame nodes

end

mutual

/-- The strings of what a node means are the text that is kept of it. -/
theorem join_strings_meaning (options : ImportOptions) :
    ∀ node : Html, String.join (Node.stringsOfAll (meaning options node)) =
      conserved false options node
  | .text value => by
    rw [meaning, conserved]
    split
    · rename_i hempty
      rw [hempty]
      rfl
    · simp
  | .element name attributes children => by
    have hchildren := join_strings_meanings options (isCodeContainer name attributes) children
    rw [meaning, conserved]
    by_cases hprogram : name.map Char.toLower = "pre" ∧ isCodeText attributes
    · simp [hprogram]
    rw [if_neg hprogram, if_neg hprogram]
    by_cases hbreak : name.map Char.toLower = "br"
    · simp [hbreak]
    rw [if_neg hbreak, if_neg (fun h => hbreak h.1), ← hchildren]
    cases construct? options name attributes <;> simp
  | .aside => rfl

theorem join_strings_meanings (options : ImportOptions) (dropFrame : Bool) :
    ∀ nodes : List Html, String.join (Node.stringsOfAll (meanings options dropFrame nodes)) =
      conservedAll false options dropFrame nodes
  | [] => rfl
  | node :: nodes => by
    have hrest := join_strings_meanings options dropFrame nodes
    rw [meanings, conservedAll]
    split
    · exact hrest
    · rw [Node.stringsOfAll_append, String.join_append, join_strings_meaning options node, hrest]

end

/-- An import that succeeds gives source that is read, and its text is the text that is kept: every
text with its runs of blanks as the options want them, unless no more than a space is left of it,
and every program. What is in a line break and in the frame of a code block is left out. -/
theorem importNodes_conserves (options : ImportOptions) {nodes : List Html} {text : String}
    (hdepth : depths nodes ≤ maxDepth)
    (hbrought : ∀ list ∈ broughtListsOfAll nodes, IsBrought list)
    (h : importNodes options nodes = .ok text) :
    ∃ tree, Source.read text = .ok tree ∧ tree.text = conservedAll false options false nodes := by
  have hnesting := Nat.le_trans (nestingAll_meanings_le options false nodes) hdepth
  have hused : ∀ list ∈ usedListsOfAll nodes, IsBrought list := fun list hlist =>
    hbrought list (usedListsOfAll_subset nodes hlist)
  refine ⟨_, read_importNodes hnesting hused h, ?_⟩
  rw [Node.text_renumbered, Node.text_ofItems, join_strings_meanings]

instance : DecidablePred IsAttributeList := fun text =>
  decidable_of_iff ((Source.readAttributes ('[' :: (text.toList ++ [']']))).toOption.any
    (fun found => found.2.isEmpty) = true) (by
      rw [IsAttributeList, Option.any_eq_true]
      constructor
      · rintro ⟨⟨entries, rest⟩, hread, hrest⟩
        cases List.isEmpty_iff.mp hrest
        exact ⟨entries, eq_ok_of_toOption hread⟩
      · rintro ⟨entries, hread⟩
        exact ⟨(entries, []), by rw [hread]; rfl, rfl⟩)

instance : DecidablePred IsBrought := fun text =>
  inferInstanceAs (Decidable (isBlankText text = true ∨ IsAttributeList text))

instance : DecidablePred BringsList := fun element =>
  decidable_of_iff (isCodeContainer element.1 element.2 = true →
      ∀ text ∈ attribute? element.2 "data-attr", IsBrought text) (by
    simp only [BringsList, Option.mem_def])

/-- A marked paragraph, and a code block with its frame. -/
def framedNodes : List Html :=
  [.element "p" [(markerKey, "p")] [.text "one \n two", .element "i" [] [.text "  "]],
    .element "div" [(markerKey, "code"), ("data-attr", "lang=lugha, run=true")]
      [.element "div" [] [.text "Run"],
        .element "pre" [(markerKey, codeMarker)]
          [.element "code" [] [.text "a\n", .element "span" [] [.text "b"]]]]]

theorem importNodes_conserves_framed :
    depths framedNodes ≤ maxDepth ∧ (∀ list ∈ broughtListsOfAll framedNodes, IsBrought list) ∧
      importNodes .default framedNodes = .ok
        "p \x7b `one two` \x7d\n\ncode[lang=lugha, run=true] \x7b\n`a\\nb`\n\x7d" ∧
      ∃ tree, Source.read "p \x7b `one two` \x7d\n\ncode[lang=lugha, run=true] \x7b\n`a\\nb`\n\x7d" =
        .ok tree ∧ tree.text = "one twoa\nb" := by
  have hdepth : depths framedNodes ≤ maxDepth := by decide
  have hbrought : ∀ list ∈ broughtListsOfAll framedNodes, IsBrought list := by decide +kernel
  have himport : importNodes .default framedNodes = .ok
      "p \x7b `one two` \x7d\n\ncode[lang=lugha, run=true] \x7b\n`a\\nb`\n\x7d" :=
    eq_ok_of_toOption (by decide +kernel)
  have htext : conservedAll false .default false framedNodes = "one twoa\nb" := by decide +kernel
  obtain ⟨tree, hread, hconserved⟩ :=
    importNodes_conserves .default hdepth hbrought himport
  exact ⟨hdepth, hbrought, himport, tree, hread, hconserved.trans htext⟩

/-- A void tag whose attribute holds its end is not closed where it should be, so that a line break
comes to have content. The text in it is lost. -/
theorem importPage_loses_break :
    ((read? (ofBrowser "<br title=\">\">lost</br>")).bind fun nodes =>
      (importNodes .default nodes).toOption.bind fun text =>
        (Source.read text).toOption.map fun tree =>
          (depths nodes, broughtListsOfAll nodes, tree.text,
            conservedAll true .default false nodes)) = some (1, [], "", "lost") := by
  decide +kernel

end ChatMarkup.Html
