import ChatMarkup.Error
import ChatMarkup.Source.Quoted
import ChatMarkup.Text.Blank
import ChatMarkup.Traced
import ChatMarkup.Tree.Basic

/-!
# Writing source

The canonical source of a tree.  Writing leaves a trace of the nodes met on the way, each before
its parts: string attribute values, the bare string body of an inline element and the body of a
code or image element are written without being met.
-/

namespace ChatMarkup.Source

/-- Writing a part of a tree. -/
abbrev Writing (α : Type) := Traced Node MarkupError α

/-- Two texts on lines of their own; an empty one takes no line. -/
def joinLines (first second : String) : String :=
  if first = "" then second
  else if second = "" then first
  else first ++ "\n" ++ second

/-- A string leaf; a lone space is left out. -/
def quoteLeaf (value : String) : String :=
  if value = " " then "" else quote value

/-- An attribute list in its brackets. -/
def bracket (entries : List String) : String :=
  "[" ++ String.intercalate ", " entries ++ "] "

/-- An element with a braced body. -/
def brace (tag head body : String) : String :=
  tag ++ head ++ "\x7b " ++ body ++ " \x7d"

/-- The text of a code element, if its body is a block with one string. -/
def codeText : Option Node → Except MarkupError String
  | some (.block [.string text]) => .ok text
  | some (.block [other]) => .error (.shape other.tagName)
  | some (.block items) =>
    .error (.shape ("Block with " ++ toString items.length ++ " children"))
  | some other => .error (.shape other.tagName)
  | none => .error (.shape "nothing")

/-- The string that stands bare behind an inline tag. -/
def bareString? (tag : Tag) (body : Option Node) : Option String :=
  if tag.takesBareString then body.bind Node.stringValue? else none

/-- A result without a trace. -/
def Writing.lift {α : Type} (result : Except MarkupError α) : Writing α :=
  ⟨[], result⟩

mutual

/-- Writes a node that was met. -/
def writeContent : Node → Writing String
  | .document none => pure ""
  | .document (some content) => do
    Traced.see content
    writeContent content
  | .elements items => writeItems items
  | .block items => writeItems items
  | .element tag _ attributes body => do
    match tag with
    | .image =>
      let head ← writeHead " " attributes
      pure (brace tag.name head "\"\"")
    | .code =>
      let text ← Writing.lift (codeText body)
      let head ← writeHead " " attributes
      pure (brace tag.name head (quoteCode text))
    | _ =>
      match bareString? tag body with
      | some text =>
        let head ← writeHead "" attributes
        pure (tag.name ++ head ++ quote text)
      | none =>
        let head ← writeHead " " attributes
        let body ← writeBody body
        pure (brace tag.name head body)
  | .string value => pure (quoteLeaf value)
  | .number value => pure (String.ofList value.text)
  | .boolean value => pure (if value then "true" else "false")
  | .identifier name => pure name
  | .attributeList attributes => do
    let entries ← writeEntries attributes
    pure (bracket entries)
  | .binding key value => do
    match value.stringValue? with
    | some text => pure (key ++ "=" ++ quote text)
    | none =>
      Traced.see value
      let text ← writeContent value
      pure (key ++ "=" ++ text)

/-- Writes the nodes of a body, each on lines of its own. -/
def writeItems : List Node → Writing String
  | [] => pure ""
  | item :: items => do
    Traced.see item
    let first ← writeContent item
    let others ← writeItems items
    pure (joinLines first others)

/-- Writes the body of an element. -/
def writeBody : Option Node → Writing String
  | none => pure ""
  | some body => do
    Traced.see body
    writeContent body

/-- Writes what stands between a tag and its body: the attribute list, or `absent` without one. -/
def writeHead (absent : String) : Option (List (Keyed Node)) → Writing String
  | none => pure absent
  | some attributes => do
    let entries ← writeEntries attributes
    pure (bracket entries)

/-- Writes the attributes of a list. -/
def writeEntries : List (Keyed Node) → Writing (List String)
  | [] => pure []
  | ⟨key, value⟩ :: rest => do
    let text ←
      match value.stringValue? with
      | some text => pure (quote text)
      | none =>
        Traced.see value
        writeContent value
    let others ← writeEntries rest
    pure ((key ++ "=" ++ text) :: others)

end

/-- Writes a tree, which is met first. -/
def writeTraced (node : Node) : Writing String := do
  Traced.see node
  writeContent node

/-- The canonical source of a tree. -/
def write (node : Node) : Except MarkupError String :=
  (writeTraced node).result

/-- An attribute list without its brackets. -/
def attributeSource (attributes : List Attribute) : Except MarkupError String :=
  (writeHead "" (some attributes)).result.map fun text =>
    let inner := (trimEnd text.toList).dropWhile (· = '[')
    String.ofList (inner.reverse.dropWhile (· = ']')).reverse

end ChatMarkup.Source
