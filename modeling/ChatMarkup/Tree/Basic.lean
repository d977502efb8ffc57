import ChatMarkup.Number.Basic
import ChatMarkup.Tree.Tag

/-!
# Markup trees

A document as a tree of elements, literals and attributes, and the order in which its nodes are
met from the front.
-/

namespace ChatMarkup

/-- A value under a key. -/
structure Keyed (α : Type) where
  key : String
  value : α
deriving DecidableEq, Repr

/-- A node of a markup tree.  Any node can stand in any place; a document that was read has its
elements in bodies and its attribute values in attribute lists. -/
inductive Node where
  | document (content : Option Node)
  | elements (items : List Node)
  | block (items : List Node)
  | element (tag : Tag) (id : Nat) (attributes : Option (List (Keyed Node)))
      (body : Option Node)
  | string (value : String)
  | number (value : Number)
  | boolean (value : Bool)
  | identifier (name : String)
  | attributeList (attributes : List (Keyed Node))
  | binding (key : String) (value : Node)

/-- A key of an element with the node bound to it. -/
abbrev Attribute := Keyed Node

/-- What every element has besides its tag. -/
structure Element where
  id : Nat
  attributes : Option (List Attribute)
  body : Option Node

namespace Node

/-- A whole document with these elements. -/
def ofItems (items : List Node) : Node :=
  .document (some (.elements items))

/-- The tag of an element, the kind of any other node. -/
def tagName : Node → String
  | document _ => "Document"
  | elements _ => "ElementList"
  | block _ => "Block"
  | element tag _ _ _ => tag.name
  | string _ => "String"
  | number _ => "Number"
  | boolean _ => "Boolean"
  | identifier _ => "Identifier"
  | attributeList _ => "AttributeList"
  | binding _ _ => "Attribute"

/-- An element with a tag of the markup; one with a tag of the author's own counts as none. -/
def element? : Node → Option Element
  | element tag id attributes body => if tag.isCustom then none else some ⟨id, attributes, body⟩
  | _ => none

/-- The nodes below, in order; the attributes of an element are not among them. -/
def children : Node → List Node
  | document content => content.toList
  | elements items => items
  | block items => items
  | element _ _ _ body => body.toList
  | binding _ value => [value]
  | _ => []

mutual

/-- The node and all nodes below it, each before those below it. -/
def walk : Node → List Node
  | document (some content) => document (some content) :: walk content
  | elements items => elements items :: walkAll items
  | block items => block items :: walkAll items
  | element tag id attributes (some body) => element tag id attributes (some body) :: walk body
  | binding key value => binding key value :: walk value
  | node => [node]

/-- The walks of the nodes, one after the other. -/
def walkAll : List Node → List Node
  | [] => []
  | node :: nodes => walk node ++ walkAll nodes

end

theorem walkAll_eq_flatMap (nodes : List Node) : walkAll nodes = nodes.flatMap walk := by
  induction nodes with
  | nil => simp [walkAll]
  | cons node nodes ih => simp [walkAll, ih]

theorem walk_eq_cons (node : Node) : walk node = node :: node.children.flatMap walk := by
  cases node with
  | document content => cases content <;> simp [walk, children]
  | elements items => simp [walk, children, walkAll_eq_flatMap]
  | block items => simp [walk, children, walkAll_eq_flatMap]
  | element tag id attributes body => cases body <;> simp [walk, children]
  | binding key value => simp [walk, children]
  | _ => simp [walk, children]

/-- The text of a string leaf. -/
def stringValue? : Node → Option String
  | string value => some value
  | _ => none

/-- Whether the node is a code element. -/
def isCode : Node → Bool
  | element .code _ _ _ => true
  | _ => false

/-- The number of code elements in the tree. -/
def codeCount (node : Node) : Nat :=
  node.walk.countP isCode

/-- The texts of all string leaves, joined. -/
def text (node : Node) : String :=
  String.join (node.walk.filterMap stringValue?)

mutual

/-- Whether two trees are the same, their numbers compared as values. -/
def same : Node → Node → Bool
  | document none, document none => true
  | document (some a), document (some b) => same a b
  | elements as, elements bs => sameAll as bs
  | block as, block bs => sameAll as bs
  | element t i none none, element u j none none => t = u && i = j
  | element t i none (some a), element u j none (some b) => t = u && i = j && same a b
  | element t i (some xs) none, element u j (some ys) none =>
    t = u && i = j && sameAttributes xs ys
  | element t i (some xs) (some a), element u j (some ys) (some b) =>
    t = u && i = j && sameAttributes xs ys && same a b
  | string a, string b => a = b
  | number x, number y => x.same y
  | boolean a, boolean b => a = b
  | identifier a, identifier b => a = b
  | attributeList xs, attributeList ys => sameAttributes xs ys
  | binding k a, binding l b => k = l && same a b
  | _, _ => false

def sameAll : List Node → List Node → Bool
  | [], [] => true
  | a :: as, b :: bs => same a b && sameAll as bs
  | _, _ => false

def sameAttributes : List (Keyed Node) → List (Keyed Node) → Bool
  | [], [] => true
  | ⟨k, a⟩ :: xs, ⟨l, b⟩ :: ys => k = l && same a b && sameAttributes xs ys
  | _, _ => false

end

end Node

end ChatMarkup
