import ChatMarkup.Proofs.Html.Writing
import ChatMarkup.View.Page

/-!
# What a page denotes

The page of a view is put together as a text. It is the text of a tree: one element for each element
of the view, with its attributes, and the strings of the view as texts and as attribute values.

* `View.html`: the tree that a view denotes;
* `View.page_eq_write`: the page is the text of this tree, by induction over the view.
-/

namespace ChatMarkup

open Html

/-! ## The tree of a view -/

namespace CodeBlock

/-- A button in the bar of a code block. -/
def barButton (action label : String) : Html :=
  .element "button" [("data-action", action)] [.text label]

/-- The buttons in the bar of a code block. -/
def barButtons (block : CodeBlock) : List Html :=
  match block.controls with
  | none => []
  | some flags =>
    [barButton "toggle" (if flags.collapsed then "Show" else "Hide")]
      ++ (if block.source.canRun then [barButton "run" (if flags.running then "Running" else "Run")]
        else [])
      ++ [barButton "copy" (if flags.copying then "Copied" else "Copy"), barButton "edit" "Edit"]

/-- The element of a code block. -/
def html (highlight : Highlighter) (block : CodeBlock) : Html :=
  .element "div"
    [(markerKey, "code"), ("data-attr", block.source.attributes),
      ("data-key", block.key.token), ("data-node", toString block.source.node),
      ("class", if block.collapsed then "lml-code collapsed" else "lml-code")]
    [.element "div" [("class", "lml-code-bar")]
        (.element "span" [] [.text block.source.lang] :: block.barButtons),
      .element "pre"
        ((markerKey, codeMarker)
          :: (if block.collapsed then [("hidden", "hidden")] else []))
        [.element "code" [] (highlight block.source.lang block.source.code)]]

end CodeBlock

namespace View

mutual

/-- The tree that a view denotes. -/
def html (highlight : Highlighter) : View CodeBlock → List Html
  | text value => [.text value]
  | wrapped wrapper children =>
    [.element wrapper.htmlName [(markerKey, wrapper.marker)] (htmlAll highlight children)]
  | link href children =>
    [.element "a" [(markerKey, "link"), ("href", href), ("target", "_blank")]
      (htmlAll highlight children)]
  | button node onclick label =>
    [.element "button"
      ([(markerKey, "button"), ("data-node", toString node)]
        ++ onclick.toList.map fun source => ("data-onclick", source))
      (htmlAll highlight label)]
  | input node name value =>
    [.element "input"
      ([(markerKey, "input"), ("data-node", toString node)]
        ++ (name.toList.map fun name => ("name", name)) ++ [("value", value)])
      []]
  | image source alt =>
    [.element "img" [(markerKey, "img"), ("src", source), ("alt", alt)] []]
  | code block => [block.html highlight]
  | panel kind children =>
    [.element "div" [(markerKey, kind.marker), ("class", "lml-" ++ kind.marker)]
      (htmlAll highlight children)]
  | fragment children => htmlAll highlight children
  | failure message =>
    [.element "div" [(markerKey, "error"), ("class", "lml-error")]
      [.element "strong" [] [.text "Failed to render"], .element "pre" [] [.text message]]]

def htmlAll (highlight : Highlighter) : List (View CodeBlock) → List Html
  | [] => []
  | view :: views => html highlight view ++ htmlAll highlight views

end

end View

/-! ## Strings that are written as they are -/

namespace Html

/-- A string without characters that are referred to is written as it is. -/
theorem escape_self {value : String} (h : value.toList.all (fun c => !isReferred false c) = true) :
    escape value = value := by
  rw [List.all_eq_true] at h
  have hchars : ∀ c ∈ value.toList, escapeChar c = c.toString := fun c hc =>
    escapeChar_eq (by simpa using h c hc)
  rw [escape, List.map_congr_left hchars, ← String.toList_inj]
  simp [List.flatMap_map]

/-- What is true of all digits is true of the characters of a number. -/
theorem all_toDigits {p : Char → Bool} (hdigit : ∀ k < 16, p (Nat.digitChar k) = true)
    {base n : Nat} (hbase : base ∈ [10, 16]) : (Nat.toDigits base n).all p = true := by
  have hone : 1 < base := by
    revert base
    decide
  have hle : base ≤ 16 := by
    revert base
    decide
  induction n using Nat.strongRecOn with
  | ind n ih =>
    rw [Nat.toDigits_eq_if hone]
    split
    · rename_i hlt
      simpa using hdigit n (Nat.lt_of_lt_of_le hlt hle)
    · rename_i hge
      have hpos : 0 < n := Nat.lt_of_lt_of_le (Nat.zero_lt_of_lt hone) (Nat.le_of_not_lt hge)
      have hlast := hdigit (n % base)
        (Nat.lt_of_lt_of_le (Nat.mod_lt n (Nat.zero_lt_of_lt hone)) hle)
      simp [ih _ (Nat.div_lt_self hpos hone), hlast]

theorem all_toString {p : Char → Bool} (hdigit : ∀ k < 16, p (Nat.digitChar k) = true) (n : Nat) :
    (toString n).toList.all p = true := by
  rw [Nat.toString_eq_repr, Nat.repr, String.toList_ofList]
  exact all_toDigits hdigit (by simp)

theorem all_token {p : Char → Bool} (hdigit : ∀ k < 16, p (Nat.digitChar k) = true)
    (hdash : p '-' = true) (key : BlockKey) : key.token.toList.all p = true := by
  have hzero : p '0' = true := hdigit 0 (by decide)
  have hword : ∀ word, (BlockKey.hexWord word).toList.all p = true := by
    intro word
    have hpad : ∀ n, (List.replicate n '0').all p = true := by simp [hzero]
    rw [BlockKey.hexWord, String.toList_ofList, List.all_append, hpad,
      all_toDigits hdigit (by simp)]
    rfl
  rw [BlockKey.token, String.toList_append, String.toList_append, List.all_append,
    List.all_append, hword, all_toString hdigit]
  simp [hdash]

theorem escape_repr (n : Nat) : escape n.repr = n.repr :=
  escape_self (all_toString (by decide) n)

theorem escape_token (key : BlockKey) : escape key.token = key.token :=
  escape_self (all_token (by decide) (by decide) key)

theorem escape_htmlMarker (wrapper : Wrapper) : escape wrapper.marker = wrapper.marker := by
  apply escape_self
  cases wrapper with
  | heading level =>
    revert level
    decide
  | _ => decide

/-! ## Writing elements -/

theorem writeAttributes_nil : writeAttributes [] = "" := rfl

theorem writeAttributes_cons (key value : String) (attributes : List (String × String)) :
    writeAttributes ((key, value) :: attributes) =
      " " ++ key ++ "=\"" ++ escape value ++ "\"" ++ writeAttributes attributes := by
  simp [writeAttributes]

theorem writeNodes_element (inCode : Bool) {name : String}
    (hname : voidNames.contains name = false) (attributes : List (String × String))
    (children : List Html) :
    writeNodes inCode [.element name attributes children] =
      "<" ++ name ++ writeAttributes attributes ++ ">"
        ++ writeNodes (inCode || isCodeText attributes) children ++ "</" ++ name ++ ">" := by
  rw [writeNodes, writeNodes, writeNode, hname]
  exact String.append_empty

theorem writeAttributes_append (xs ys : List (String × String)) :
    writeAttributes (xs ++ ys) = writeAttributes xs ++ writeAttributes ys := by
  simp [writeAttributes]

/-- An attribute that may be missing. -/
theorem writeAttributes_toList (key : String) (value : Option String) :
    writeAttributes (value.toList.map fun value => (key, value)) =
      value.elim "" fun value => " " ++ key ++ "=\"" ++ escape value ++ "\"" := by
  cases value with
  | none => rfl
  | some value => simp [writeAttributes_cons, writeAttributes_nil]

/-- An element with a closing tag, outside of programs. -/
theorem write_element {name : String} (hname : voidNames.contains name = false)
    {attributes : List (String × String)} (hprogram : isCodeText attributes = false)
    (children : List Html) :
    write [.element name attributes children] =
      "<" ++ name ++ writeAttributes attributes ++ ">" ++ write children
        ++ "</" ++ name ++ ">" := by
  rw [write, writeNodes_element false hname, hprogram]
  rfl

/-- An element that names its construct. -/
theorem write_marked {name marker : String} (hname : voidNames.contains name = false)
    (hmarker : escape marker = marker) (hprogram : marker ≠ codeMarker)
    (attributes : List (String × String)) (children : List Html) :
    write [.element name ((markerKey, marker) :: attributes) children] =
      "<" ++ name ++ " data-lml=\"" ++ marker ++ "\"" ++ writeAttributes attributes ++ ">"
        ++ write children ++ "</" ++ name ++ ">" := by
  have hcode : isCodeText ((markerKey, marker) :: attributes) = false := by
    simp [isCodeText, hprogram]
  rw [write_element hname hcode, writeAttributes_cons, hmarker]
  simp [markerKey, ← String.toList_inj]

theorem write_void {name : String} (h : voidNames.contains name = true)
    (attributes : List (String × String)) :
    write [.element name attributes []] = "<" ++ name ++ writeAttributes attributes ++ "/>" := by
  rw [write, writeNodes, writeNodes, writeNode, if_pos h]
  exact String.append_empty

theorem write_text (value : String) : write [.text value] = escape value := by
  simp [write, writeNodes, writeNode]

theorem write_cons (node : Html) (nodes : List Html) :
    write (node :: nodes) = write [node] ++ write nodes :=
  writeNodes_append false [node] nodes

end Html

/-! ## The page of a view -/

namespace CodeBlock

theorem barButtonPage_eq {action label : String} (haction : escape action = action)
    (hlabel : escape label = label) :
    barButtonPage action label = write [barButton action label] := by
  have hprogram : isCodeText [("data-action", action)] = false := by
    simp [isCodeText, markerKey, List.lookup_cons]
  have hwrite : write [barButton action label] = _ :=
    write_element (by decide) hprogram [.text label]
  rw [hwrite, write_text, writeAttributes_cons, writeAttributes_nil, haction, hlabel]
  unfold barButtonPage
  simp [← String.toList_inj]

theorem barButtonsPage_eq (block : CodeBlock) :
    block.barButtonsPage = write block.barButtons := by
  have htoggle : ∀ collapsed : Bool, barButtonPage "toggle" (if collapsed then "Show" else "Hide") =
      write [barButton "toggle" (if collapsed then "Show" else "Hide")] := fun collapsed =>
    barButtonPage_eq (by decide) (by revert collapsed; decide)
  have hrun : ∀ running : Bool, barButtonPage "run" (if running then "Running" else "Run") =
      write [barButton "run" (if running then "Running" else "Run")] := fun running =>
    barButtonPage_eq (by decide) (by revert running; decide)
  have hcopy : ∀ copying : Bool, barButtonPage "copy" (if copying then "Copied" else "Copy") =
      write [barButton "copy" (if copying then "Copied" else "Copy")] := fun copying =>
    barButtonPage_eq (by decide) (by revert copying; decide)
  have hedit : barButtonPage "edit" "Edit" = write [barButton "edit" "Edit"] :=
    barButtonPage_eq (by decide) (by decide)
  rw [barButtonsPage, barButtons]
  cases block.controls with
  | none => rfl
  | some flags =>
    simp only [htoggle, hrun, hcopy, hedit]
    cases block.source.canRun <;> simp [write, writeNodes, String.append_assoc]

theorem barPage_eq (block : CodeBlock) :
    block.barPage = write [.element "div" [("class", "lml-code-bar")]
      (.element "span" [] [.text block.source.lang] :: block.barButtons)] := by
  have hfixed : escape "lml-code-bar" = "lml-code-bar" := by decide
  have hlang : write [.element "span" [] [.text block.source.lang]] = _ :=
    write_element (by decide) (by decide) _
  rw [write_element (by decide) (by decide), write_cons, hlang, write_text,
    ← barButtonsPage_eq]
  unfold barPage
  simp [writeAttributes_cons, writeAttributes_nil, hfixed, ← String.toList_inj]

theorem programPage_eq (highlight : Highlighter) (block : CodeBlock) :
    block.programPage highlight = write [.element "pre" ((markerKey, codeMarker)
      :: (if block.collapsed then [("hidden", "hidden")] else []))
        [.element "code" [] (highlight block.source.lang block.source.code)]] := by
  have hfixed : escape "code_block" = "code_block" ∧ escape "hidden" = "hidden" := by decide
  have hprogram : isCodeText ((markerKey, codeMarker)
      :: (if block.collapsed then [("hidden", "hidden")] else [])) = true := by
    simp [isCodeText]
  rw [write, writeNodes_element _ (by decide), hprogram,
    writeNodes_element _ (by decide)]
  unfold programPage
  cases block.collapsed <;>
    simp [writeAttributes_cons, writeAttributes_nil, hfixed, markerKey, codeMarker,
      ← String.toList_inj]

/-- The page of a code block is the text of its element. -/
theorem page_eq_write (highlight : Highlighter) (block : CodeBlock) :
    block.page highlight = write [block.html highlight] := by
  have hclass : escape (if block.collapsed then "lml-code collapsed" else "lml-code") =
      if block.collapsed then "lml-code collapsed" else "lml-code" := by
    cases block.collapsed <;> decide
  have hwrite : write [block.html highlight] = _ :=
    write_marked (by decide) (by decide) (by decide) _ _
  rw [hwrite, write_cons, ← barPage_eq, ← programPage_eq]
  unfold page openPage
  simp [writeAttributes_cons, writeAttributes_nil, hclass, escape_repr, escape_token,
    ← String.toList_inj]

end CodeBlock

namespace View

variable (highlight : Highlighter)

theorem write_wrapped (wrapper : Wrapper) (children : List (View CodeBlock)) :
    write (html highlight (wrapped wrapper children)) =
      "<" ++ wrapper.htmlName ++ " data-lml=\"" ++ wrapper.marker ++ "\">"
        ++ write (htmlAll highlight children) ++ "</" ++ wrapper.htmlName ++ ">" := by
  have hwrapper : voidNames.contains wrapper.htmlName = false ∧ wrapper.marker ≠ codeMarker := by
    cases wrapper with
    | heading level =>
      revert level
      decide
    | _ => decide
  have hwrite : write (html highlight (wrapped wrapper children)) = _ :=
    write_marked hwrapper.1 (escape_htmlMarker wrapper) hwrapper.2 _ _
  rw [hwrite]
  simp [writeAttributes_nil, ← String.toList_inj]

theorem write_link (href : String) (children : List (View CodeBlock)) :
    write (html highlight (link href children)) =
      "<a" ++ " data-lml=\"link\" href=\"" ++ escape href ++ "\" target=\"_blank\">"
        ++ write (htmlAll highlight children) ++ "</a>" := by
  have htarget : escape "_blank" = "_blank" := by decide
  have hwrite : write (html highlight (link href children)) = _ :=
    write_marked (by decide) (by decide) (by decide) _ _
  rw [hwrite]
  simp [writeAttributes_cons, writeAttributes_nil, htarget, ← String.toList_inj]

theorem write_button (node : Nat) (onclick : Option String) (label : List (View CodeBlock)) :
    write (html highlight (button node onclick label)) =
      "<button" ++ " data-lml=\"button\" data-node=\"" ++ toString node ++ "\""
        ++ (onclick.elim "" fun source => " " ++ "data-onclick" ++ "=\"" ++ escape source ++ "\"")
        ++ ">" ++ write (htmlAll highlight label) ++ "</button>" := by
  have hwrite : write (html highlight (button node onclick label)) = _ :=
    write_marked (by decide) (by decide) (by decide)
      (("data-node", toString node)
        :: onclick.toList.map fun source => ("data-onclick", source)) _
  rw [hwrite, writeAttributes_cons, writeAttributes_toList]
  simp [escape_repr, ← String.toList_inj]

theorem write_input (node : Nat) (name : Option String) (value : String) :
    write (html highlight (input node name value)) =
      "<input" ++ " data-lml=\"input\" data-node=\"" ++ toString node ++ "\""
        ++ (name.elim "" fun name => " " ++ "name" ++ "=\"" ++ escape name ++ "\"")
        ++ " value=\"" ++ escape value ++ "\"/>" := by
  have hmarker : escape "input" = "input" := by decide
  have hwrite : write (html highlight (input node name value)) = _ :=
    write_void (by decide) _
  rw [hwrite, writeAttributes_append, writeAttributes_append, writeAttributes_toList]
  simp [writeAttributes_cons, writeAttributes_nil, hmarker, escape_repr, markerKey,
    ← String.toList_inj]

theorem write_image (source alt : String) :
    write (html highlight (image source alt)) =
      "<img" ++ " data-lml=\"img\" src=\"" ++ escape source ++ "\" alt=\"" ++ escape alt
        ++ "\"/>" := by
  have hmarker : escape "img" = "img" := by decide
  have hwrite : write (html highlight (image source alt)) = _ :=
    write_void (by decide) _
  rw [hwrite]
  simp [writeAttributes_cons, writeAttributes_nil, hmarker, markerKey, ← String.toList_inj]

theorem write_panel (kind : Panel) (children : List (View CodeBlock)) :
    write (html highlight (panel kind children)) =
      "<div" ++ " data-lml=\"" ++ kind.marker ++ "\" class=\"lml-" ++ kind.marker ++ "\">"
        ++ write (htmlAll highlight children) ++ "</div>" := by
  have hmarker : escape kind.marker = kind.marker ∧ kind.marker ≠ codeMarker := by
    cases kind <;> decide
  have hclass : escape ("lml-" ++ kind.marker) = "lml-" ++ kind.marker := by
    cases kind <;> decide
  have hwrite : write (html highlight (panel kind children)) = _ :=
    write_marked (by decide) hmarker.1 hmarker.2 _ _
  rw [hwrite]
  simp [writeAttributes_cons, writeAttributes_nil, hclass, ← String.toList_inj]

theorem write_failure (message : String) :
    write (html highlight (failure message)) =
      "<div" ++ " data-lml=\"error\" class=\"lml-error\">" ++ "<strong>Failed to render</strong>"
        ++ "<pre>" ++ escape message ++ "</pre></div>" := by
  have hfixed : escape "lml-error" = "lml-error" ∧
      escape "Failed to render" = "Failed to render" := by
    decide
  have htitle : write [.element "strong" [] [.text "Failed to render"]] = _ :=
    write_element (by decide) (by decide) _
  have hmessage : write [.element "pre" [] [.text message]] = _ :=
    write_element (by decide) (by decide) _
  have hwrite : write (html highlight (failure message)) = _ :=
    write_marked (by decide) (by decide) (by decide) _ _
  rw [hwrite, write_cons, htitle, hmessage, write_text, write_text]
  simp [writeAttributes_cons, writeAttributes_nil, hfixed, ← String.toList_inj]

mutual

-- A page is its equation by definition; rewriting by that equation would evaluate the literals.
/-- The page of a view is the text of the tree that it denotes. -/
theorem page_eq_write :
    ∀ view : View CodeBlock, view.page highlight = write (view.html highlight)
  | text value => (write_text value).symm
  | wrapped wrapper children => by
    rw [write_wrapped, ← pageAll_eq_write children]
    rfl
  | link href children => by
    rw [write_link, ← pageAll_eq_write children]
    rfl
  | button node onclick label => by
    rw [write_button, ← pageAll_eq_write label]
    rfl
  | input node name value => (write_input highlight node name value).symm
  | image source alt => (write_image highlight source alt).symm
  | code block => block.page_eq_write highlight
  | panel kind children => by
    rw [write_panel, ← pageAll_eq_write children]
    rfl
  | fragment children => pageAll_eq_write children
  | failure message => (write_failure highlight message).symm

theorem pageAll_eq_write :
    ∀ views : List (View CodeBlock), pageAll highlight views = write (htmlAll highlight views)
  | [] => rfl
  | view :: views => by
    show page highlight view ++ pageAll highlight views = writeNodes false (_ ++ _)
    rw [writeNodes_append, page_eq_write view, pageAll_eq_write views]
    rfl

end

end View

end ChatMarkup
