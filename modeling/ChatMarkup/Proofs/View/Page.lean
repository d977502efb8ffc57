import ChatMarkup.Proofs.Html.Meaning
import ChatMarkup.Proofs.Html.Writing
import ChatMarkup.Proofs.View.Denotation

/-!
# Pages that can be written

The page of a view is a proper tree, if programs are set by adding nothing but colours to them.

* `Highlighter.Faithful`: what is asked of the setting of programs;
* `areProper_html`: a page can be written.
-/

namespace ChatMarkup

namespace Html

mutual

/-- A text, or an element that only colours texts. -/
def OnlyColours : Html → Prop
  | .text _ => True
  | .element name attributes children =>
    name = "span" ∧ AreProperAttributes attributes ∧ AllOnlyColour children
  | .aside => False

def AllOnlyColour : List Html → Prop
  | [] => True
  | node :: nodes => OnlyColours node ∧ AllOnlyColour nodes

end

mutual

theorem proper_of_onlyColours : ∀ node : Html, OnlyColours node → Proper node
  | .text _, _ => trivial
  | .element name attributes children, h => by
    rw [OnlyColours] at h
    obtain ⟨rfl, hattributes, hchildren⟩ := h
    rw [Proper]
    exact ⟨by decide, hattributes, fun hvoid => absurd hvoid (by decide),
      areProper_of_allOnlyColour children hchildren⟩
  | .aside, h => nomatch h

theorem areProper_of_allOnlyColour : ∀ nodes : List Html, AllOnlyColour nodes → AreProper nodes
  | [], _ => trivial
  | node :: nodes, h => by
    rw [AllOnlyColour] at h
    rw [AreProper]
    exact ⟨proper_of_onlyColours node h.1, areProper_of_allOnlyColour nodes h.2⟩

end

end Html

open Html

/-- A way of setting programs that adds nothing but colours: the text is the program. -/
structure Highlighter.Faithful (highlight : Highlighter) : Prop where
  onlyColours : ∀ lang code, AllOnlyColour (highlight lang code)
  text : ∀ lang code, plainTexts (highlight lang code) = code

theorem Highlighter.faithful_plain : Highlighter.plain.Faithful where
  onlyColours lang code := by
    rw [plain]
    split
    · trivial
    · exact ⟨⟨rfl, by decide, trivial, trivial⟩, trivial⟩
  text lang code := by
    rw [plain]
    split
    · rename_i hempty
      exact hempty.symm
    · simp [plainTexts, plainText]

/-! ## Writing a page -/

/-- Attributes can be written by their keys, whatever their values. -/
theorem areProperAttributes_of_keys (keys : List String)
    (hkeys : (keys.all isPlainName && decide keys.Nodup) = true)
    {attributes : List (String × String)} (h : attributes.map Prod.fst = keys) :
    AreProperAttributes attributes := by
  rw [Bool.and_eq_true, List.all_eq_true, decide_eq_true_eq, ← h] at hkeys
  exact ⟨fun entry hentry => hkeys.1 entry.1 (List.mem_map_of_mem hentry), hkeys.2⟩

theorem proper_element {name : String} (hname : (isPlainName name && !isVoid name) = true)
    {attributes : List (String × String)} (hattributes : AreProperAttributes attributes)
    {children : List Html} (hchildren : AreProper children) :
    Proper (.element name attributes children) := by
  rw [Bool.and_eq_true, Bool.not_eq_true'] at hname
  rw [Proper]
  refine ⟨hname.1, hattributes, fun hvoid => ?_, hchildren⟩
  rw [hname.2] at hvoid
  cases hvoid

theorem proper_void {name : String}
    (hname : (isPlainName name && voidNames.contains name) = true)
    {attributes : List (String × String)} (hattributes : AreProperAttributes attributes) :
    Proper (.element name attributes []) := by
  rw [Bool.and_eq_true] at hname
  rw [Proper]
  exact ⟨hname.1, hattributes, fun _ => ⟨hname.2, rfl⟩, trivial⟩

theorem areProper_singleton {node : Html} (h : Proper node) : AreProper [node] := by
  rw [AreProper]
  exact ⟨h, trivial⟩

theorem proper_barButton (action label : String) : Proper (CodeBlock.barButton action label) :=
  proper_element (by decide)
    (areProperAttributes_of_keys ["data-action"] (by decide) rfl)
    (areProper_singleton trivial)

theorem areProper_barButtons (block : CodeBlock) : AreProper block.barButtons := by
  unfold CodeBlock.barButtons
  split
  · trivial
  · simp only [areProper_append]
    refine ⟨⟨areProper_singleton (proper_barButton _ _), ?_⟩,
      proper_barButton _ _, areProper_singleton (proper_barButton _ _)⟩
    split
    · exact areProper_singleton (proper_barButton _ _)
    · trivial

theorem proper_block {highlight : Highlighter} (h : highlight.Faithful) (block : CodeBlock) :
    Proper (block.html highlight) := by
  have hnone : AreProperAttributes [] := areProperAttributes_of_keys [] (by decide) rfl
  have hlang : Proper (.element "span" [] [.text block.source.lang]) :=
    proper_element (by decide) hnone (areProper_singleton trivial)
  have hbar : Proper (.element "div" [("class", "lml-code-bar")]
      (.element "span" [] [.text block.source.lang] :: block.barButtons)) :=
    proper_element (by decide)
      (areProperAttributes_of_keys ["class"] (by decide) rfl)
      ⟨hlang, areProper_barButtons block⟩
  have hcode : Proper (.element "code" [] (highlight block.source.lang block.source.code)) :=
    proper_element (by decide) hnone (areProper_of_allOnlyColour _ (h.onlyColours _ _))
  have hattributes : AreProperAttributes ((markerKey, codeMarker) ::
      (if block.collapsed then [("hidden", "hidden")] else [])) := by
    split
    · exact areProperAttributes_of_keys [markerKey, "hidden"] (by decide) rfl
    · exact areProperAttributes_of_keys [markerKey] (by decide) rfl
  have hpre : Proper (.element "pre" _ _) :=
    proper_element (by decide) hattributes (areProper_singleton hcode)
  exact proper_element (by decide)
    (areProperAttributes_of_keys [markerKey, "data-attr", "data-key", "data-node", "class"]
      (by decide) rfl)
    ⟨hbar, areProper_singleton hpre⟩

namespace View

theorem proper_wrapper (wrapper : Wrapper) {children : List Html} (h : AreProper children) :
    Proper (.element wrapper.htmlName [(markerKey, wrapper.marker)] children) := by
  refine proper_element ?_ (areProperAttributes_of_keys [markerKey] (by decide) rfl) h
  cases wrapper with
  | heading level =>
    revert level
    decide
  | _ => decide

mutual

/-- A page can be written. -/
theorem areProper_html {highlight : Highlighter} (h : highlight.Faithful) :
    ∀ view : View CodeBlock, AreProper (html highlight view)
  | text value => areProper_singleton trivial
  | wrapped wrapper children =>
    areProper_singleton (proper_wrapper wrapper (areProper_htmlAll h children))
  | link href children =>
    areProper_singleton (proper_element (by decide)
      (areProperAttributes_of_keys [markerKey, "href", "target"] (by decide) rfl)
      (areProper_htmlAll h children))
  | button node onclick label => by
    refine areProper_singleton (proper_element (by decide) ?_ (areProper_htmlAll h label))
    cases onclick with
    | none => exact areProperAttributes_of_keys [markerKey, "data-node"] (by decide) rfl
    | some source =>
      exact areProperAttributes_of_keys [markerKey, "data-node", "data-onclick"]
        (by decide) rfl
  | input node name value => by
    refine areProper_singleton (proper_void (by decide) ?_)
    cases name with
    | none =>
      exact areProperAttributes_of_keys [markerKey, "data-node", "value"] (by decide) rfl
    | some name =>
      exact areProperAttributes_of_keys [markerKey, "data-node", "name", "value"]
        (by decide) rfl
  | image source alt =>
    areProper_singleton (proper_void (by decide)
      (areProperAttributes_of_keys [markerKey, "src", "alt"] (by decide) rfl))
  | code block => areProper_singleton (proper_block h block)
  | panel kind children =>
    areProper_singleton (proper_element (by decide)
      (areProperAttributes_of_keys [markerKey, "class"] (by decide) rfl)
      (areProper_htmlAll h children))
  | fragment children => areProper_htmlAll h children
  | failure message => by
    have hnone : AreProperAttributes [] := areProperAttributes_of_keys [] (by decide) rfl
    refine areProper_singleton (proper_element (by decide)
      (areProperAttributes_of_keys [markerKey, "class"] (by decide) rfl)
      ⟨?_, areProper_singleton ?_⟩) <;>
    exact proper_element (by decide) hnone (areProper_singleton trivial)

theorem areProper_htmlAll {highlight : Highlighter} (h : highlight.Faithful) :
    ∀ views : List (View CodeBlock), AreProper (htmlAll highlight views)
  | [] => trivial
  | view :: views => by
    rw [htmlAll, areProper_append]
    exact ⟨areProper_html h view, areProper_htmlAll h views⟩

end

end View

end ChatMarkup
