import ChatMarkup.Block.Basic
import ChatMarkup.Source.Writer
import ChatMarkup.Tree.Attributes
import ChatMarkup.View.Basic

/-!
# Sketching a view

The view of a tree before anything is known of its code blocks besides what the tree says.  The
sketch leaves a trace of the nodes and of the code blocks met, so that a tree that cannot be shown
still says which blocks were met before the error.
-/

namespace ChatMarkup

/-- A node met, with whether its neighbours are set tight, or a code block met. -/
inductive Sighting where
  | node (node : Node) (tight : Bool)
  | block (source : CodeSource)

/-- Sketching a part of a tree. -/
abbrev Sketching (α : Type) := Traced Sighting MarkupError α

namespace Wrapper

/-- The wrapper that a tag stands for. -/
def ofTag? : Tag → Option Wrapper
  | .heading level => some (.heading level)
  | .paragraph => some .paragraph
  | .orderedList => some .orderedList
  | .unorderedList => some .unorderedList
  | .listItem => some .listItem
  | .bold => some .bold
  | .italic => some .italic
  | .inlineCode => some .inlineCode
  | .preformatted => some .preformatted
  | .noSpace => some .noSpace
  | _ => none

end Wrapper

namespace Panel

/-- The panel that an author's tag stands for. -/
def ofName? : String → Option Panel
  | "reason" => some .reason
  | "answer" => some .answer
  | _ => none

end Panel

namespace View

/-- The text of the last scalar attribute with a key. -/
def attributeText? (attributes : Option (List Attribute)) (key : String) : Option String :=
  (attributes.bind fun attributes => Attributes.scalar? attributes key).map Scalar.text

/-- The text of a body; none has no text. -/
def bodyText (body : Option Node) : String :=
  (body.map Node.text).getD ""

/-- The code block that an element with these parts is. -/
def codeSource (id : Nat) (attributes : Option (List Attribute)) (body : Option Node) :
    Except MarkupError CodeSource :=
  match attributes with
  | none => .ok ⟨id, "", bodyText body, "", false⟩
  | some attributes =>
    (Source.attributeSource attributes).map fun source =>
      ⟨id, (attributeText? attributes "lang").getD "", bodyText body, source,
        (Attributes.scalar? attributes "run").any Scalar.isTrue⟩

/-- Meets a code block. -/
def sketchCode (source : Except MarkupError CodeSource) : Sketching (View CodeSource) :=
  match source with
  | .ok source => do
    Traced.see (.block source)
    pure (.code source)
  | .error e => Traced.fail e

/-- Neighbours have a space between them. -/
def spaced (views : List (View CodeSource)) : List (View CodeSource) :=
  views.intersperse (.text " ")

mutual

/-- The view of a node that was met. -/
def sketchContent (tight : Bool) : Node → Sketching (View CodeSource)
  | .document content => do
    let children ← sketchBody tight content
    pure (.wrapped .document children)
  | .elements items => do
    let children ← sketchItems tight items
    pure (.fragment children)
  | .block items => do
    let children ← sketchItems tight items
    pure (.fragment (if tight then children else spaced children))
  | .element tag id attributes body => do
    match Wrapper.ofTag? tag with
    | some wrapper =>
      let children ← sketchBody (tight || wrapper = .noSpace) body
      pure (.wrapped wrapper children)
    | none =>
      match tag with
      | .button =>
        let label ← sketchBody tight body
        pure (.button id (attributeText? attributes "onclick") label)
      | .link =>
        let children ← sketchBody tight body
        pure (.link ((attributeText? attributes "href").getD "") children)
      | .input => pure (.input id (attributeText? attributes "name") (bodyText body))
      | .image =>
        pure (.image ((attributeText? attributes "src").getD "")
          ((attributeText? attributes "alt").getD ""))
      | .code => sketchCode (codeSource id attributes body)
      | .custom name =>
        match Panel.ofName? name with
        | some kind =>
          let children ← sketchBody tight body
          pure (.panel kind children)
        | none => pure .empty
      | _ => pure .empty
  | .string value => pure (.text value)
  | .number value => pure (.text (String.ofList value.text))
  | .boolean value => pure (.text (if value then "true" else "false"))
  | .identifier _ => pure .empty
  | .attributeList _ => pure .empty
  | .binding _ _ => pure .empty

/-- The views of nodes, each of which is met first. -/
def sketchItems (tight : Bool) : List Node → Sketching (List (View CodeSource))
  | [] => pure []
  | item :: items => do
    Traced.see (.node item tight)
    let first ← sketchContent tight item
    let others ← sketchItems tight items
    pure (first :: others)

/-- The parts of the view of a body, which is met first. -/
def sketchBody (tight : Bool) : Option Node → Sketching (List (View CodeSource))
  | none => pure []
  | some body => do
    Traced.see (.node body tight)
    let view ← sketchContent tight body
    pure view.parts

end

/-- The view of a tree, which is met first. -/
def sketch (tree : Node) : Sketching (View CodeSource) := do
  Traced.see (.node tree false)
  sketchContent false tree

end View

namespace Sighting

/-- The code block that was met. -/
def block? : Sighting → Option CodeSource
  | block source => some source
  | node _ _ => none

/-- The node that was met. -/
def node? : Sighting → Option (Node × Bool)
  | node found tight => some (found, tight)
  | block _ => none

end Sighting

end ChatMarkup
