import ChatMarkup.Proofs.Html.Gathering
import ChatMarkup.Proofs.Html.KeptList
import ChatMarkup.Proofs.View.Return

/-!
# Pages of code blocks

When a document may hold the page of a code block, and what is saved of it.

* `isLegalNode_html`: a document may hold the page of a block if it may hold its parts;
* `source_delivered`: the source of a block that is read back, whatever its controls;
* `isSavedAs_html`: what is saved of a block is a code element with its program and its attributes.
-/

namespace ChatMarkup

open Html

/-- A way of setting programs that adds no character that a document may not hold. -/
def Highlighter.KeepsLegal (highlight : Highlighter) : Prop :=
  ∀ lang code, isLegalText lang = true → isLegalText code = true →
    areLegalNodes (highlight lang code) = true

namespace Highlighter

theorem keepsLegal_plain : Highlighter.plain.KeepsLegal := by
  intro lang code _ hcode
  rw [plain]
  split
  · rfl
  · rw [areLegalNodes, areLegalNodes, isLegalNode, areLegalNodes, areLegalNodes, isLegalNode, hcode]
    decide

end Highlighter

/-! ## Characters of a page -/

namespace Html

theorem isLegalText_append (x y : String) :
    isLegalText (x ++ y) = (isLegalText x && isLegalText y) := by
  simp [isLegalText]

mutual

/-- A document that may hold a node may hold all its texts. -/
theorem isLegalText_plainText : ∀ node : Html, isLegalNode node = true →
    isLegalText (plainText node) = true
  | .text value, h => by rwa [isLegalNode] at h
  | .element name attributes children, h => by
    rw [isLegalNode, Bool.and_eq_true] at h
    rw [plainText]
    exact isLegalText_plainTexts children h.2
  | .aside, _ => rfl

theorem isLegalText_plainTexts : ∀ nodes : List Html, areLegalNodes nodes = true →
    isLegalText (plainTexts nodes) = true
  | [], _ => rfl
  | node :: nodes, h => by
    rw [areLegalNodes, Bool.and_eq_true] at h
    rw [plainTexts, isLegalText_append, isLegalText_plainText node h.1,
      isLegalText_plainTexts nodes h.2]
    rfl

end

theorem areLegalNodes_eq (nodes : List Html) : areLegalNodes nodes = nodes.all isLegalNode := by
  induction nodes with
  | nil => rfl
  | cons node nodes ih => rw [areLegalNodes, ih, List.all_cons]

/-- A document that may hold some nodes may hold all texts that are read back of them. -/
theorem isLegalText_deliveredAll (inCode : Bool) {nodes : List Html}
    (h : areLegalNodes nodes = true) :
    isLegalText (plainTexts (deliveredAll inCode [] nodes)) = true := by
  have htexts := isLegalText_plainTexts nodes h
  rw [isLegalText, List.all_eq_true] at htexts ⊢
  intro c hc
  rcases mem_plainTexts_deliveredAll inCode nodes [] hc with rfl | ⟨piece, hpiece, -⟩ | hmem
  · decide
  · cases hpiece
  · exact htexts c hmem

theorem isLegalText_toString (n : Nat) : isLegalText (toString n) = true :=
  all_toString (by decide) n

theorem isLegalText_token (key : BlockKey) : isLegalText key.token = true :=
  all_token (by decide) (by decide) key

end Html

namespace CodeBlock

/-- The buttons that a bar may have. -/
theorem mem_barButtons {block : CodeBlock} {node : Html} (h : node ∈ block.barButtons) :
    ∃ action ∈ ["toggle", "run", "copy", "edit"],
      ∃ label ∈ ["Show", "Hide", "Running", "Run", "Copied", "Copy", "Edit"],
        node = barButton action label := by
  unfold barButtons at h
  split at h
  · cases h
  · simp only [List.mem_append, List.mem_cons, List.not_mem_nil, or_false] at h
    rcases h with (rfl | h) | rfl | rfl
    · exact ⟨_, by decide, _, by split <;> decide, rfl⟩
    · split at h
      · rw [List.mem_singleton.mp h]
        exact ⟨_, by decide, _, by split <;> decide, rfl⟩
      · cases h
    · exact ⟨_, by decide, _, by split <;> decide, rfl⟩
    · exact ⟨_, by decide, _, by decide, rfl⟩

theorem areLegalNodes_barButtons (block : CodeBlock) : areLegalNodes block.barButtons = true := by
  rw [areLegalNodes_eq, List.all_eq_true]
  intro node hnode
  obtain ⟨action, haction, label, hlabel, rfl⟩ := mem_barButtons hnode
  clear hnode
  revert action label
  decide

/-- A document may hold the page of a block if it may hold its parts: what its controls show may
always stand there. -/
theorem isLegalNode_html (highlight : Highlighter) (block : CodeBlock) :
    isLegalNode (block.html highlight) = (isLegalText block.source.attributes &&
      (isLegalText block.source.lang &&
        areLegalNodes (highlight block.source.lang block.source.code))) := by
  have hnode : isLegalText block.source.node.repr = true := isLegalText_toString _
  have hmarker : isLegalText "code" = true := by decide
  have hclass : isLegalText (if block.collapsed then "lml-code collapsed" else "lml-code") = true := by
    cases block.collapsed <;> decide
  have hbar : isLegalText "lml-code-bar" = true := by decide
  have hprogram : isLegalText codeMarker = true := by decide
  have hhidden : isLegalText "hidden" = true := by decide
  have hfolded : ((if block.collapsed then [("hidden", "hidden")] else []).all
      fun entry : String × String => isLegalText entry.2) = true := by
    cases block.collapsed <;> simp [hhidden]
  simp [html, isLegalNode, areLegalNodes, block.areLegalNodes_barButtons, isLegalText_token,
    hnode, hmarker, hclass, hbar, hprogram, hfolded]

/-! ## What is saved -/

/-- The attributes that are saved of a block. -/
def savedAttributes (block : CodeBlock) : String :=
  codeAttributes .default (spacedAttributes block.frameAttributes)

/-- What is saved of a block: a code element. -/
def saved (highlight : Highlighter) (block : CodeBlock) : Saved :=
  .element
    (.element .code 0 (some (entriesOf block.savedAttributes))
      (some (.block [.string (block.programBack highlight)])))
    (blockSource ("code[" ++ block.savedAttributes ++ "]")
      (Source.quoteCode (block.programBack highlight)))

theorem attribute?_frame (block : CodeBlock) :
    attribute? (spacedAttributes block.frameAttributes) "data-attr" =
      some (spacedValue block.source.attributes) := by
  simp [attribute?, spacedAttributes, frameAttributes, markerKey, List.lookup_cons]

end CodeBlock

namespace Html

theorem colouredTexts_eq {nodes : List Html}
    (h : ∀ node ∈ nodes, colouredText node = .ok (plainText node)) :
    colouredTexts nodes = .ok (plainTexts nodes) := by
  induction nodes with
  | nil => rfl
  | cons node nodes ih =>
    rw [List.forall_mem_cons] at h
    rw [colouredTexts, h.1, ih h.2]
    rfl

mutual

/-- Colours are left out of the text that is read back. -/
theorem colouredText_delivered (inCode : Bool) : ∀ node : Html, OnlyColours node →
    colouredText (delivered inCode node) = .ok (plainText (delivered inCode node))
  | .text value, _ => rfl
  | .element name attributes children, h => by
    rw [OnlyColours] at h
    obtain ⟨rfl, -, hchildren⟩ := h
    rw [delivered, colouredText, if_pos (map_toLower_self (by decide)), plainText]
    refine colouredTexts_eq fun node hnode => ?_
    rcases mem_deliveredAll hnode with ⟨value, rfl⟩ | ⟨original, horiginal, rfl⟩
    · rfl
    · exact colouredTexts_delivered _ children hchildren original horiginal
  | .aside, h => nomatch h

theorem colouredTexts_delivered (inCode : Bool) : ∀ nodes : List Html, AllOnlyColour nodes →
    ∀ node ∈ nodes, colouredText (delivered inCode node) = .ok (plainText (delivered inCode node))
  | [], _ => nofun
  | node :: nodes, h => by
    rw [AllOnlyColour] at h
    rw [List.forall_mem_cons]
    exact ⟨colouredText_delivered inCode node h.1, colouredTexts_delivered inCode nodes h.2⟩

end

end Html

namespace CodeBlock

theorem colouredTexts_program {highlight : Highlighter} (h : highlight.Faithful)
    (block : CodeBlock) :
    colouredTexts (deliveredAll true [] (highlight block.source.lang block.source.code)) =
      .ok (block.programBack highlight) := by
  refine colouredTexts_eq fun node hnode => ?_
  rcases mem_deliveredAll hnode with ⟨value, rfl⟩ | ⟨original, horiginal, rfl⟩
  · rfl
  · exact colouredTexts_delivered true _ (h.onlyColours _ _) original horiginal

/-- The source of a block that is read back: its program behind its attributes. The bar is left
out. -/
theorem source_delivered (options : ImportOptions) (highlight : Highlighter) (block : CodeBlock) :
    Html.source options (delivered false (block.html highlight)) =
      (codeText [.element "code" []
        (deliveredAll true [] (highlight block.source.lang block.source.code))]).map fun program =>
          blockSource
            ("code[" ++ codeAttributes options (spacedAttributes block.frameAttributes) ++ "]")
            (Source.quoteCode program) := by
  have hdiv : "div".map Char.toLower = "div" := map_toLower_self (by decide)
  have hpre : "pre".map Char.toLower = "pre" := map_toLower_self (by decide)
  have hbar : isFrame (delivered false block.bar) = true := by
    simp [bar, delivered, isFrame, hdiv]
  have hne : ∀ program, Source.quoteCode program ≠ "" := by
    intro program hquote
    have hlist := congrArg String.toList hquote
    simp [Source.quoteCode] at hlist
  rw [delivered_html, Html.source, isCodeContainer_frame, if_neg (by simp [hdiv]),
    if_neg (by simp [hdiv]), sources, hbar, if_pos (by simp), sources, isFrame, hpre,
    if_neg (by decide), sources, Html.source, if_pos ⟨hpre, block.isCodeText_program⟩]
  cases codeText [.element "code" []
      (deliveredAll true [] (highlight block.source.lang block.source.code))] with
  | error _ => rfl
  | ok program =>
    show Except.ok (elementSource _ _ _
      (String.intercalate "\n" (if Source.quoteCode program = "" then _ else _))) = Except.ok _
    rw [if_neg (hne program)]
    simp [elementSource, hdiv, block.marker_frame]

/-- The source that is saved of a block. -/
theorem source_html {highlight : Highlighter} (h : highlight.Faithful) (block : CodeBlock) :
    Html.source .default (delivered false (block.html highlight)) =
      .ok (blockSource ("code[" ++ block.savedAttributes ++ "]")
        (Source.quoteCode (block.programBack highlight))) := by
  have hprogram : codeText [.element "code" []
      (deliveredAll true [] (highlight block.source.lang block.source.code))] =
      .ok (block.programBack highlight) := by
    rw [codeText, if_pos (map_toLower_self (by decide)), colouredTexts_program h]
    show Except.ok (_ ++ "") = _
    rw [String.append_empty]
  rw [source_delivered, hprogram]
  rfl

/-- What is saved of a block is a code element with its program and its attributes. -/
theorem isSavedAs_html {highlight : Highlighter} (h : highlight.Faithful) (block : CodeBlock) :
    IsSavedAs (block.html highlight) (block.saved highlight) := by
  refine .element (block.source_html h) ?_ ?_
  · intro hempty
    have hlist := congrArg String.toList hempty
    simp [blockSource] at hlist
  · have hmeaning := block.meaning_html highlight
    rwa [constructAttributes, if_neg (by decide +kernel), if_pos block.isCodeContainer_frame]
      at hmeaning

/-- What is saved of a block depends on what the tree says of it. -/
theorem saved_eq (highlight : Highlighter) {block other : CodeBlock}
    (hcode : block.programBack highlight = other.programBack highlight)
    (hattributes : block.savedAttributes = other.savedAttributes) :
    block.saved highlight = other.saved highlight := by
  rw [saved, saved, hcode, hattributes]

/-- The program stands among the texts that are read back. -/
theorem mem_plainText_html (highlight : Highlighter) (block : CodeBlock) {c : Char}
    (h : c ∈ (block.programBack highlight).toList) :
    c ∈ (plainText (delivered false (block.html highlight))).toList := by
  rw [delivered_html]
  simp only [plainText, plainTexts, String.toList_append, List.mem_append]
  exact .inr (.inl (.inl h))

end CodeBlock

end ChatMarkup
