import ChatMarkup.Html.Basic
import ChatMarkup.Html.Token

/-!
# Reading HTML

The nodes that well-formed HTML stands for.  Tags have to match, every qualifier has to be bound to
a namespace, and no element may have an attribute twice.  The tree is built from the tokens with a
stack of the elements that are still open.

The importer leaves this step to a reader of XML documents that is not its own.  `read?` stands for
that reader on the content of one element, by XML 1.0 and its namespaces: texts and references,
character data, comments, processing instructions and tags, with what makes them well-formed.  There
is no document type inside an element, so that the five named characters are all there are.  The
reader departs from the standard in a few places, and the definitions follow it there: a carriage
return in front of a reference stays (`carriageReturn`), a reference by a number that is no
character brings the replacement character (`charOfNumber?`), and comments and instructions leave a
node that parts the texts around it (`Html.aside`).
-/

namespace ChatMarkup.Html

/-! ## Qualifiers -/

/-- The namespace that a name is in. -/
inductive Space where
  | none
  | xml
  | bound (uri : String)
deriving DecidableEq, Repr

/-- The qualifiers bound to namespaces, the innermost binding first. -/
abbrev Bindings := List (String × String)

/-- The word that binds: as a qualifier it binds the name behind it, as a name the names without a
qualifier. -/
def bindingWord : String := "xmlns"

/-- The qualifier that attributes can have without a binding. -/
def xmlQualifier : String := "xml"

def standardRoot : String := "http:" ++ "//www.w3.org/"

/-- The namespace of `xmlQualifier`. -/
def xmlSpace : String := standardRoot ++ "XML/1998/namespace"

/-- The namespace of `bindingWord`. -/
def bindingSpace : String := standardRoot ++ "2000/xmlns/"

/-- Whether an attribute binds a qualifier, or the names that have none. -/
def isBinding (name : Name) : Bool :=
  name.qualifier = bindingWord || name.base = bindingWord

/-- Whether an attribute that binds may bind to a namespace: `xmlQualifier` and its namespace go
only with each other, and nothing goes with the namespace of `bindingWord`. -/
def mayBind (name : Name) (uri : String) : Bool :=
  uri ≠ bindingSpace && (uri = xmlSpace) == (name = ⟨bindingWord, xmlQualifier⟩)

/-- The qualifiers that the attributes of a tag bind; none if a binding is not allowed or a
qualifier is bound twice.  The binding of `xmlQualifier` adds nothing. -/
def bindingsOf? (attributes : List (Name × String)) : Option Bindings :=
  let bound := attributes.filterMap fun (name, uri) =>
    if name.qualifier = bindingWord ∧ name.base ≠ xmlQualifier then some (name.base, uri)
    else Option.none
  let keys := bound.map Prod.fst
  if (attributes.filter (isBinding ·.1)).all (fun (name, uri) => mayBind name uri)
      ∧ keys.eraseDups.length = keys.length then
    some bound
  else Option.none

/-- Whether an element can have a qualifier. -/
def canQualify (bindings : Bindings) (qualifier : String) : Bool :=
  qualifier = "" || (bindings.lookup qualifier).isSome

/-- The namespace that the qualifier of an attribute stands for. -/
def spaceOf? (bindings : Bindings) (qualifier : String) : Option Space :=
  if qualifier = "" then some .none
  else if qualifier = xmlQualifier then some .xml
  else (bindings.lookup qualifier).map .bound

/-- Whether no two of the names of attributes are the same name in the same namespace. -/
def areDistinct (bindings : Bindings) (names : List Name) : Bool :=
  let full := names.map fun name => (spaceOf? bindings name.qualifier, name.base)
  full.all (fun entry => entry.1.isSome) && full.eraseDups.length = full.length

/-! ## Building the tree -/

/-- An element that is open: its name, its attributes, the qualifiers bound in it, and the nodes
before it, last first. -/
structure Opened where
  name : Name
  attributes : List (String × String)
  bindings : Bindings
  outer : List Html

/-- What is built: the nodes of the innermost open element, last first, and the open elements,
innermost first. -/
structure Building where
  nodes : List Html
  opened : List Opened

/-- One more text behind some nodes, last first; it joins a text that stands there. -/
def addText (value : String) : List Html → List Html
  | .text before :: nodes => .text (before ++ value) :: nodes
  | nodes => if value = "" then nodes else .text value :: nodes

namespace Building

/-- The qualifiers that are bound here. -/
def bindings (building : Building) : Bindings :=
  (building.opened.head?.map Opened.bindings).getD []

/-- Opens an element. -/
def open? (building : Building) (name : Name) (attributes : List (Name × String)) :
    Option Building :=
  (bindingsOf? attributes).bind fun bound =>
    let bindings := bound ++ building.bindings
    let proper := attributes.filter fun entry => !isBinding entry.1
    if name.qualifier ≠ bindingWord ∧ canQualify bindings name.qualifier
        ∧ areDistinct bindings (proper.map Prod.fst) then
      some ⟨[], ⟨name, proper.map fun (key, value) => (key.text, value), bindings,
        building.nodes⟩ :: building.opened⟩
    else none

/-- Closes the innermost element, which has to have this name. -/
def close? (building : Building) (name : Name) : Option Building :=
  match building.opened with
  | [] => none
  | innermost :: opened =>
    if innermost.name = name then
      some ⟨.element name.base innermost.attributes building.nodes.reverse :: innermost.outer,
        opened⟩
    else none

/-- Takes the next token. -/
def take? (building : Building) : Token → Option Building
  | .text value => some { building with nodes := addText (String.ofList value) building.nodes }
  | .aside => some { building with nodes := .aside :: building.nodes }
  | .opening name attributes closed =>
    (building.open? name attributes).bind fun opened =>
      if closed then opened.close? name else some opened
  | .closing name => building.close? name

end Building

/-- The nodes that tokens stand for. -/
def ofTokens? (tokens : List Token) : Option (List Html) :=
  (tokens.foldlM Building.take? ⟨[], []⟩).bind fun building =>
    if building.opened.isEmpty then some building.nodes.reverse else none

/-- The nodes that a text stands for. -/
def read? (text : String) : Option (List Html) :=
  (tokens? text.toList).bind ofTokens?

end ChatMarkup.Html
