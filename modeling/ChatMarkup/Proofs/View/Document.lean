import ChatMarkup.Proofs.Html.Settled
import ChatMarkup.Proofs.View.BlockPage

/-!
# Pages as documents

A page is well-formed, and it is read as the tree that its view denotes: one element for each element
of the view, with the attributes that belong to it, and the strings of the view as texts and as
attribute values. So no string can open an element, close one, or add an attribute.

* `View.HasSettledStrings`: the strings of a view come back as they are;
* `areSettled_html`: so do those of its page, by induction over the view;
* `page_denotes`: how a page is read.
-/

namespace ChatMarkup

open Html

/-- A way of setting programs that adds nothing that would not come back as it is. -/
def Highlighter.KeepsSettled (highlight : Highlighter) : Prop :=
  ∀ lang code, isSettledText lang = true → isSettledText code = true →
    areSettled (highlight lang code) = true

theorem Highlighter.keepsSettled_plain : Highlighter.plain.KeepsSettled := by
  intro lang code _ hcode
  rw [plain]
  split
  · rfl
  · rw [areSettled, areSettled, isSettled, areSettled, areSettled, isSettled, hcode]
    decide

namespace View

/-! ## The strings of a view -/

/-- The strings of a view that are shown as texts. -/
def texts (view : View CodeBlock) : List String :=
  view.walk.flatMap fun
    | text value => [value]
    | code block => [block.source.lang, block.source.code]
    | failure message => [message]
    | _ => []

/-- The strings of a view that are set as attributes. -/
def values (view : View CodeBlock) : List String :=
  view.walk.flatMap fun
    | link href _ => [href]
    | button _ onclick _ => onclick.toList
    | input _ name value => name.toList ++ [value]
    | image source alt => [source, alt]
    | code block => [block.source.attributes]
    | _ => []

/-- All strings of a view come back as they are. -/
structure HasSettledStrings (view : View CodeBlock) : Prop where
  texts : ∀ value ∈ view.texts, isSettledText value = true
  values : ∀ value ∈ view.values, isSettledValue value = true

theorem HasSettledStrings.child {view child : View CodeBlock} (h : view.HasSettledStrings)
    (hchild : child ∈ view.children) : child.HasSettledStrings := by
  have hwalk : ∀ part ∈ child.walk, part ∈ view.walk := by
    intro part hpart
    rw [walk_eq_cons view]
    exact List.mem_cons_of_mem _ (List.mem_flatMap.mpr ⟨child, hchild, hpart⟩)
  constructor
  · intro value hvalue
    obtain ⟨part, hpart, hmem⟩ := List.mem_flatMap.mp hvalue
    exact h.texts value (List.mem_flatMap.mpr ⟨part, hwalk part hpart, hmem⟩)
  · intro value hvalue
    obtain ⟨part, hpart, hmem⟩ := List.mem_flatMap.mp hvalue
    exact h.values value (List.mem_flatMap.mpr ⟨part, hwalk part hpart, hmem⟩)

end View

/-! ## Settled pages -/

theorem CodeBlock.areSettled_barButtons (block : CodeBlock) :
    areSettled block.barButtons = true := by
  rw [areSettled_eq, List.all_eq_true]
  intro node hnode
  obtain ⟨action, haction, label, hlabel, rfl⟩ := mem_barButtons hnode
  clear hnode
  revert action label
  decide

theorem CodeBlock.isSettled_html {highlight : Highlighter} (hkeeps : highlight.KeepsSettled)
    {block : CodeBlock} (hlang : isSettledText block.source.lang = true)
    (hcode : isSettledText block.source.code = true)
    (hattributes : isSettledValue block.source.attributes = true) :
    isSettled (block.html highlight) = true := by
  have hprogram := hkeeps _ _ hlang hcode
  have htoken : isSettledValue block.key.token = true := all_token (by decide) (by decide) _
  have hnode : isSettledValue block.source.node.repr = true := all_toString (by decide) _
  have hmarker : isSettledValue "code" = true := by decide
  have hclass : isSettledValue (if block.collapsed then "lml-code collapsed" else "lml-code") =
      true := by
    cases block.collapsed <;> decide
  have hbar : isSettledValue "lml-code-bar" = true := by decide
  have hcodeMarker : isSettledValue codeMarker = true := by decide
  have hhidden : isSettledValue "hidden" = true := by decide
  have hfolded : ((if block.collapsed then [("hidden", "hidden")] else []).all
      fun entry : String × String => isSettledValue entry.2) = true := by
    cases block.collapsed <;> simp [hhidden]
  simp [html, isSettled, areSettled, block.areSettled_barButtons, htoken, hnode, hmarker, hclass,
    hbar, hcodeMarker, hfolded, hlang, hattributes, hprogram]

namespace View

mutual

/-- A view whose strings come back as they are has a page that comes back as it is. -/
theorem areSettled_html {highlight : Highlighter} (hkeeps : highlight.KeepsSettled) :
    ∀ view : View CodeBlock, view.HasSettledStrings → areSettled (html highlight view) = true
  | text value, h => by
    have htext := h.texts value (by simp [texts, walk])
    simp [html, areSettled, isSettled, htext]
  | wrapped wrapper children, h => by
    have hchildren := areSettled_htmlAll hkeeps children fun child hchild => h.child hchild
    have hmarker : isSettledValue wrapper.marker = true := by
      clear h
      cases wrapper with
      | heading level =>
        revert level
        decide
      | _ => decide
    simp [html, areSettled, isSettled, hmarker, hchildren]
  | link href children, h => by
    have hchildren := areSettled_htmlAll hkeeps children fun child hchild => h.child hchild
    have hhref := h.values href (by simp [values, walk])
    have hfixed : isSettledValue "link" = true ∧ isSettledValue "_blank" = true := by
      decide
    simp [html, areSettled, isSettled, hhref, hfixed, hchildren]
  | button node onclick label, h => by
    have hlabel := areSettled_htmlAll hkeeps label fun child hchild => h.child hchild
    have honclick : ∀ source ∈ onclick.toList, isSettledValue source = true :=
      fun source hsource => h.values source (by simp [values, walk, Option.mem_toList.mp hsource])
    have hnode : isSettledValue node.repr = true := all_toString (by decide) _
    have hmarker : isSettledValue "button" = true := by decide
    cases onclick <;> simp_all [html, areSettled, isSettled]
  | input node name value, h => by
    have hname : ∀ text ∈ name.toList, isSettledValue text = true :=
      fun text htext => h.values text (by simp [values, walk, Option.mem_toList.mp htext])
    have hvalue := h.values value (by simp [values, walk])
    have hnode : isSettledValue node.repr = true := all_toString (by decide) _
    have hmarker : isSettledValue "input" = true := by decide
    cases name <;> simp_all [html, areSettled, isSettled]
  | image source alt, h => by
    have hsource := h.values source (by simp [values, walk])
    have halt := h.values alt (by simp [values, walk])
    have hmarker : isSettledValue "img" = true := by decide
    simp [html, areSettled, isSettled, hsource, halt, hmarker]
  | code block, h => by
    have hblock := CodeBlock.isSettled_html hkeeps
      (h.texts block.source.lang (by simp [texts, walk]))
      (h.texts block.source.code (by simp [texts, walk]))
      (h.values block.source.attributes (by simp [values, walk]))
    simp [html, areSettled, hblock]
  | panel kind children, h => by
    have hchildren := areSettled_htmlAll hkeeps children fun child hchild => h.child hchild
    have hfixed : isSettledValue kind.marker = true ∧
        isSettledValue ("lml-" ++ kind.marker) = true := by
      cases kind <;> decide
    simp [html, areSettled, isSettled, hfixed, hchildren]
  | fragment children, h => by
    rw [html]
    exact areSettled_htmlAll hkeeps children fun child hchild => h.child hchild
  | failure message, h => by
    have hmessage := h.texts message (by simp [texts, walk])
    have hfixed : isSettledValue "error" = true ∧ isSettledValue "lml-error" = true ∧
        isSettledText "Failed to render" = true := by
      decide
    simp [html, areSettled, isSettled, hmessage, hfixed]

theorem areSettled_htmlAll {highlight : Highlighter} (hkeeps : highlight.KeepsSettled) :
    ∀ views : List (View CodeBlock), (∀ view ∈ views, view.HasSettledStrings) →
      areSettled (htmlAll highlight views) = true
  | [], _ => rfl
  | view :: views, h => by
    rw [List.forall_mem_cons] at h
    rw [htmlAll, areSettled_append, areSettled_html hkeeps view h.1,
      areSettled_htmlAll hkeeps views h.2]
    rfl

end

/-! ## Reading a page -/

/-- A page is read as the tree of its view, with neighbouring texts joined, alone and between the
tags of any element; and it is no other page to a browser. -/
theorem page_denotes {highlight : Highlighter} (hhighlight : highlight.Faithful)
    (hkeeps : highlight.KeepsSettled) {view : View CodeBlock} (h : view.HasSettledStrings) :
    ofBrowser (view.page highlight) = view.page highlight ∧
      read? (view.page highlight) = some (joined (view.html highlight)) ∧
      ∀ root : String, isSimpleName root = true →
        read? ("<" ++ root ++ ">" ++ view.page highlight ++ "</" ++ root ++ ">") =
          some [.element root [] (joined (view.html highlight))] := by
  have hproper := areProper_html hhighlight view
  have hsettled := areSettled_html hkeeps view h
  rw [page_eq_write]
  refine ⟨ofBrowser_write hproper, read?_write_settled hproper hsettled, fun root hroot => ?_⟩
  exact read?_wrapped_settled hroot hproper hsettled

/-- Every kind of view, with strings that would break out of texts and attributes. -/
def hostileView : View CodeBlock :=
  .wrapped .document
    [.text "</div><script>", .text "&lt;", .link "\"><br>" [.text "]]>"],
      .button 3 (some "\" onclick=\"run()") [.text "go"], .input 4 (some "a\"b") "'/>",
      .image "x&y" "<!--",
      .code ⟨⟨5, "lugha", "</code></pre>\n'&nbsp;", "lang=`lugha`, run=\"true\"", true⟩,
        ⟨"lugha", "</code></pre>\n'&nbsp;", 0⟩, some ⟨true, false, false⟩⟩,
      .panel .reason [.failure "</pre>"]]

theorem page_denotes_hostile :
    (Highlighter.plain.Faithful ∧ Highlighter.plain.KeepsSettled ∧
        hostileView.HasSettledStrings ∧ isSimpleName "__lml_root__" = true) ∧
      ofBrowser (hostileView.page .plain) = hostileView.page .plain ∧
      read? (hostileView.page .plain) = some (joined (hostileView.html .plain)) ∧
      read? ("<" ++ "__lml_root__" ++ ">" ++ hostileView.page .plain ++
          "</" ++ "__lml_root__" ++ ">") =
        some [.element "__lml_root__" [] (joined (hostileView.html .plain))] := by
  have hstrings : hostileView.HasSettledStrings := ⟨by decide, by decide⟩
  have hroot : isSimpleName "__lml_root__" = true := by decide
  obtain ⟨hbrowser, hread, hwrapped⟩ :=
    page_denotes Highlighter.faithful_plain Highlighter.keepsSettled_plain hstrings
  exact ⟨⟨Highlighter.faithful_plain, Highlighter.keepsSettled_plain, hstrings, hroot⟩, hbrowser,
    hread, hwrapped _ hroot⟩

end View

end ChatMarkup
