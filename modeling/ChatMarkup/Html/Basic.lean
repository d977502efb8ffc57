/-!
# HTML trees

Well-formed HTML as a tree of elements and texts, and its text.  A void element is closed in its
own tag, so that what is written is also XML.
-/

namespace ChatMarkup

/-- A node of an HTML tree.  An aside is a comment or a processing instruction; it says nothing,
but the texts on its two sides are two texts. -/
inductive Html where
  | text (text : String)
  | element (name : String) (attributes : List (String × String)) (children : List Html)
  | aside

namespace Html

/-- The attribute that says which construct of the markup an element stands for. -/
def markerKey : String := "data-lml"

/-- The marker of the element that holds the text of a code block. -/
def codeMarker : String := "code_block"

/-- Whether the attributes are those of the element that holds the text of a code block. -/
def isCodeText (attributes : List (String × String)) : Bool :=
  attributes.lookup markerKey = some codeMarker

/-- The elements without content that are written as one tag. -/
def voidNames : List String := ["br", "hr", "img", "input", "wbr"]

/-- A character of a text or of an attribute value as it is written. -/
def escapeChar : Char → String
  | '&' => "&amp;"
  | '<' => "&lt;"
  | '>' => "&gt;"
  | '"' => "&quot;"
  | c => c.toString

/-- A text or an attribute value as it is written. -/
def escape (text : String) : String :=
  String.join (text.toList.map escapeChar)

/-- A character of a program as it is written: an apostrophe is a reference as well. -/
def escapeCodeChar : Char → String
  | '\'' => "&#39;"
  | c => escapeChar c

/-- The text of a program as it is written. -/
def escapeCode (text : String) : String :=
  String.join (text.toList.map escapeCodeChar)

/-- Attributes as they are written behind the name of an element. -/
def writeAttributes (attributes : List (String × String)) : String :=
  String.join (attributes.map fun (key, value) => " " ++ key ++ "=\"" ++ escape value ++ "\"")

mutual

/-- A node as it is written, inside the text of a code block or outside. -/
def writeNode (inCode : Bool) : Html → String
  | text value => if inCode then escapeCode value else escape value
  | element name attributes children =>
    if voidNames.contains name then "<" ++ name ++ writeAttributes attributes ++ "/>"
    else
      "<" ++ name ++ writeAttributes attributes ++ ">"
        ++ writeNodes (inCode || isCodeText attributes) children
        ++ "</" ++ name ++ ">"
  | aside => "<!---->"

def writeNodes (inCode : Bool) : List Html → String
  | [] => ""
  | node :: nodes => writeNode inCode node ++ writeNodes inCode nodes

end

/-- Nodes as they are written, one after the other. -/
def write (nodes : List Html) : String :=
  writeNodes false nodes

end Html

end ChatMarkup
