import ChatMarkup.Block.Basic
import ChatMarkup.Html.Basic
import ChatMarkup.Tree.Tag
import ChatMarkup.View.Basic

/-!
# Views as pages

The page of a view is put together from its tags and its strings, each string escaped where it
stands.  Every element names the construct it stands for, so that a page that was edited can be read
back as markup.
-/

namespace ChatMarkup

namespace Wrapper

/-- The name of the HTML element. -/
def htmlName : Wrapper → String
  | document => "div"
  | heading level => (Tag.heading level).name
  | paragraph => "p"
  | orderedList => "ol"
  | unorderedList => "ul"
  | listItem => "li"
  | bold => "strong"
  | italic => "em"
  | inlineCode => "code"
  | preformatted => "pre"
  | noSpace => "span"

/-- The construct that the element stands for. -/
def marker : Wrapper → String
  | document => "document"
  | heading level => (Tag.heading level).name
  | paragraph => "p"
  | orderedList => "ol"
  | unorderedList => "ul"
  | listItem => "li"
  | bold => "b"
  | italic => "i"
  | inlineCode => "c"
  | preformatted => "pre"
  | noSpace => "nospace"

end Wrapper

namespace Panel

/-- The construct that the panel stands for. -/
def marker : Panel → String
  | reason => "reason"
  | answer => "answer"

end Panel

/-- How the code of a block is set as HTML: by its language, in elements that only colour it. -/
abbrev Highlighter := String → String → List Html

namespace Highlighter

/-- Code all in the colour of plain text. -/
def plain : Highlighter := fun _ code =>
  if code = "" then [] else [.element "span" [("class", "hl-text hl-plain")] [.text code]]

end Highlighter

-- What opens a tag stands apart: the equations of a definition evaluate a literal in front, which
-- takes long if it is long.

namespace CodeBlock

/-- A button in the bar of a code block. -/
def barButtonPage (action label : String) : String :=
  "<button" ++ " data-action=\"" ++ action ++ "\">" ++ label ++ "</button>"

/-- The buttons in the bar of a code block. -/
def barButtonsPage (block : CodeBlock) : String :=
  match block.controls with
  | none => ""
  | some flags =>
    barButtonPage "toggle" (if flags.collapsed then "Show" else "Hide")
      ++ (if block.source.canRun then
          barButtonPage "run" (if flags.running then "Running" else "Run")
        else "")
      ++ barButtonPage "copy" (if flags.copying then "Copied" else "Copy")
      ++ barButtonPage "edit" "Edit"

/-- The tag that opens a code block. -/
def openPage (block : CodeBlock) : String :=
  "<div" ++ " data-lml=\"code\" data-attr=\"" ++ Html.escape block.source.attributes
    ++ "\" data-key=\"" ++ block.key.token ++ "\" data-node=\"" ++ toString block.source.node
    ++ "\" class=\"" ++ (if block.collapsed then "lml-code collapsed" else "lml-code") ++ "\">"

/-- The bar of a code block: its language and its buttons. -/
def barPage (block : CodeBlock) : String :=
  "<div" ++ " class=\"lml-code-bar\">" ++ "<span>" ++ Html.escape block.source.lang ++ "</span>"
    ++ block.barButtonsPage ++ "</div>"

/-- The program of a code block, hidden if the block is collapsed. -/
def programPage (highlight : Highlighter) (block : CodeBlock) : String :=
  "<pre" ++ " data-lml=\"code_block\"" ++ (if block.collapsed then " hidden=\"hidden\"" else "")
    ++ ">" ++ "<code>" ++ Html.writeNodes true (highlight block.source.lang block.source.code)
    ++ "</code>" ++ "</pre>"

/-- A code block as a page. -/
def page (highlight : Highlighter) (block : CodeBlock) : String :=
  block.openPage ++ block.barPage ++ block.programPage highlight ++ "</div>"

end CodeBlock

namespace View

mutual

/-- A view as a page. -/
def page (highlight : Highlighter) : View CodeBlock → String
  | text value => Html.escape value
  | wrapped wrapper children =>
    "<" ++ wrapper.htmlName ++ " data-lml=\"" ++ wrapper.marker ++ "\">"
      ++ pageAll highlight children ++ "</" ++ wrapper.htmlName ++ ">"
  | link href children =>
    "<a" ++ " data-lml=\"link\" href=\"" ++ Html.escape href ++ "\" target=\"_blank\">"
      ++ pageAll highlight children ++ "</a>"
  | button node onclick label =>
    "<button" ++ " data-lml=\"button\" data-node=\"" ++ toString node ++ "\""
      ++ (onclick.elim "" fun source => " data-onclick=\"" ++ Html.escape source ++ "\"")
      ++ ">" ++ pageAll highlight label ++ "</button>"
  | input node name value =>
    "<input" ++ " data-lml=\"input\" data-node=\"" ++ toString node ++ "\""
      ++ (name.elim "" fun name => " name=\"" ++ Html.escape name ++ "\"")
      ++ " value=\"" ++ Html.escape value ++ "\"/>"
  | image source alt =>
    "<img" ++ " data-lml=\"img\" src=\"" ++ Html.escape source
      ++ "\" alt=\"" ++ Html.escape alt ++ "\"/>"
  | code block => block.page highlight
  | panel kind children =>
    "<div" ++ " data-lml=\"" ++ kind.marker ++ "\" class=\"lml-" ++ kind.marker ++ "\">"
      ++ pageAll highlight children ++ "</div>"
  | fragment children => pageAll highlight children
  | failure message =>
    "<div" ++ " data-lml=\"error\" class=\"lml-error\">" ++ "<strong>Failed to render</strong>"
      ++ "<pre>" ++ Html.escape message ++ "</pre></div>"

def pageAll (highlight : Highlighter) : List (View CodeBlock) → String
  | [] => ""
  | view :: views => page highlight view ++ pageAll highlight views

end

end View

end ChatMarkup
