import ChatMarkup.Error
import ChatMarkup.Html.Browser
import ChatMarkup.Html.Reader
import ChatMarkup.Source.Quoted

/-!
# Markup from HTML

The source that an edited page stands for.  Elements say by their markers which construct they come
from; what has no marker only leaves its text.
-/

namespace ChatMarkup

/-- How a page is turned into source: whether blanks in texts are kept as they are, whether links
are kept, and the language of code blocks that have lost their attributes. -/
structure ImportOptions where
  keepBlanks : Bool
  keepLinks : Bool
  codeLang : String
deriving DecidableEq, Repr

namespace ImportOptions

def default : ImportOptions := ⟨false, true, "lugha"⟩

end ImportOptions

namespace Html

/-- The value of an attribute. -/
def attribute? (attributes : List (String × String)) (key : String) : Option String :=
  attributes.lookup key

/-- The construct that an element stands for, or an empty name. -/
def marker (attributes : List (String × String)) : String :=
  (attribute? attributes markerKey).getD ""

def headingNames : List String := ["h1", "h2", "h3", "h4", "h5", "h6"]

/-- A construct with its content on the same line. -/
def inlineSource (tag content : String) : String :=
  tag ++ " \x7b " ++ content ++ " \x7d"

/-- A construct with its content on lines of its own. -/
def blockSource (tag content : String) : String :=
  tag ++ " \x7b\n" ++ content ++ "\n\x7d"

/-- A text as source; nothing if no more than a space is left of it. -/
def textSource (options : ImportOptions) (value : String) : String :=
  let text := if options.keepBlanks then value else String.ofList (foldBlanks value.toList)
  if text = "" ∨ text = " " then "" else Source.quote text

/-! ## The text of a code block -/

mutual

/-- The text inside an element that only colours it. -/
def colouredText : Html → Except MarkupError String
  | .text value => .ok value
  | .element name _ children =>
    if name.map Char.toLower = "span" then colouredTexts children else .error (.unsupported name)
  | .aside => .ok ""

def colouredTexts : List Html → Except MarkupError String
  | [] => .ok ""
  | node :: nodes => do
    let first ← colouredText node
    let others ← colouredTexts nodes
    .ok (first ++ others)

end

/-- The text of the code elements among some nodes. -/
def codeText : List Html → Except MarkupError String
  | [] => .ok ""
  | .element name _ children :: nodes => do
    let first ← if name.map Char.toLower = "code" then colouredTexts children else .ok ""
    let others ← codeText nodes
    .ok (first ++ others)
  | _ :: nodes => codeText nodes

/-! ## Elements -/

/-- The attributes of a code block as source. -/
def codeAttributes (options : ImportOptions) (attributes : List (String × String)) : String :=
  match attribute? attributes "data-attr" with
  | some source =>
    if isBlankText source then "lang=" ++ Source.quote options.codeLang else source
  | none => "lang=" ++ Source.quote options.codeLang

/-- A link as source. -/
def linkSource (attributes : List (String × String)) (content : String) : String :=
  let href := "href=" ++ Source.quote ((attribute? attributes "href").getD "")
  let title :=
    match attribute? attributes "title" with
    | some title => if marker attributes = "link" then "" else ", title=" ++ Source.quote title
    | none => ""
  inlineSource ("link[" ++ href ++ title ++ "]") content

/-- Whether an element is marked as a code block. -/
def isCodeContainer (name : String) (attributes : List (String × String)) : Bool :=
  (name.map Char.toLower = "div" || name.map Char.toLower = "span") && marker attributes = "code"

/-- Whether a node is a part of the frame of a code block. -/
def isFrame : Html → Bool
  | .element name _ _ => name.map Char.toLower = "div"
  | _ => false

/-- The content, as the construct if the element is marked as one. -/
def ifMarked (attributes : List (String × String)) (tag content : String) : String :=
  if marker attributes = tag then inlineSource tag content else content

/-- An element as source, with the source of its content. -/
def elementSource (options : ImportOptions) (name : String) (attributes : List (String × String))
    (content : String) : String :=
  let marker := marker attributes
  match name.map Char.toLower with
  | "h1" | "h2" | "h3" | "h4" | "h5" | "h6" =>
    if headingNames.contains marker then inlineSource marker content ++ "\n" else content
  | "p" => if marker = "p" then inlineSource "p" content ++ "\n" else content ++ "\n\n"
  | "strong" | "b" => ifMarked attributes "b" content
  | "em" | "i" => ifMarked attributes "i" content
  | "code" => ifMarked attributes "c" content
  | "ul" => if marker = "ul" then blockSource "ul" content else content
  | "ol" => if marker = "ol" then blockSource "ol" content else content
  | "li" => ifMarked attributes "li" content
  | "a" => if options.keepLinks then linkSource attributes content else content
  | "div" | "span" =>
    if marker = "reason" ∨ marker = "answer" then blockSource marker content ++ "\n"
    else if marker = "code" then
      blockSource ("code[" ++ codeAttributes options attributes ++ "]") content
    else content
  | _ => content

mutual

/-- The source of a node. -/
def source (options : ImportOptions) : Html → Except MarkupError String
  | .text value => .ok (textSource options value)
  | .element name attributes children =>
    if name.map Char.toLower = "pre" ∧ isCodeText attributes then
      (codeText children).map Source.quoteCode
    else if name.map Char.toLower = "br" then .ok "\n"
    else do
      let parts ← sources options (isCodeContainer name attributes) children
      .ok (elementSource options name attributes (String.intercalate "\n" parts))
  | .aside => .ok ""

/-- The sources of nodes, without those that are empty; parts of a frame may be left out. -/
def sources (options : ImportOptions) (dropFrame : Bool) :
    List Html → Except MarkupError (List String)
  | [] => .ok []
  | node :: nodes =>
    if dropFrame && isFrame node then sources options dropFrame nodes
    else do
      let first ← source options node
      let others ← sources options dropFrame nodes
      .ok (if first = "" then others else first :: others)

end

/-- The source that nodes stand for. -/
def importNodes (options : ImportOptions) (nodes : List Html) : Except MarkupError String :=
  (sources options false nodes).map fun parts => trim (String.intercalate "\n" parts)

/-- The source that a page stands for. -/
def importPage (options : ImportOptions) (page : String) : Except MarkupError String :=
  match read? (ofBrowser page) with
  | some nodes => importNodes options nodes
  | none => .error (.malformedHtml "not well-formed")

end Html

end ChatMarkup
