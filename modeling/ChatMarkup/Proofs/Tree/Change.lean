import ChatMarkup.Proofs.Tree.Place

/-!
# What a change of an element leaves

A tree can be told as the list of its nodes in the order of the walk, each without the nodes below
it but with how many there are. A change of an element found by its number changes its own row of
that list and the rows of its body; the rows before and behind stay, whatever the change is.

* `rows_fill`: the rows of a tree with a node in a place;
* `lookups_agree`: what every lookup of a number comes to, and what a change there leaves.
-/

namespace ChatMarkup.Node

/-- What a node is without the nodes below it. -/
inductive Head where
  | document
  | elements
  | block
  | element (opening : Opening)
  | string (value : String)
  | number (value : Number)
  | boolean (value : Bool)
  | identifier (name : String)
  | attributeList (attributes : List Attribute)
  | binding (key : String)

/-- The node without the nodes below it. -/
def head : Node → Head
  | .document _ => .document
  | .elements _ => .elements
  | .block _ => .block
  | .element tag id attributes _ => .element ⟨tag, id, attributes⟩
  | .string value => .string value
  | .number value => .number value
  | .boolean value => .boolean value
  | .identifier name => .identifier name
  | .attributeList attributes => .attributeList attributes
  | .binding key _ => .binding key

/-- What a node is, and how many nodes stand right below it. -/
def row (node : Node) : Head × Nat :=
  (node.head, node.children.length)

/-- The rows of the nodes of a tree, in the order of the walk. -/
def rows (tree : Node) : List (Head × Nat) :=
  tree.walk.map row

/-- The rows of some nodes and of all nodes below them. -/
def rowsAll (nodes : List Node) : List (Head × Nat) :=
  (walkAll nodes).map row

theorem rows_eq_cons (node : Node) : node.rows = node.row :: rowsAll node.children := by
  rw [rows, walk_eq_cons, List.map_cons, rowsAll, walkAll_eq_flatMap]

@[simp]
theorem rowsAll_nil : rowsAll [] = [] := by
  simp [rowsAll, walkAll]

theorem rowsAll_append (xs ys : List Node) : rowsAll (xs ++ ys) = rowsAll xs ++ rowsAll ys := by
  simp [rowsAll, walkAll_eq_flatMap]

theorem rowsAll_cons (node : Node) (nodes : List Node) :
    rowsAll (node :: nodes) = node.rows ++ rowsAll nodes := by
  rw [rowsAll, walkAll, List.map_append]
  rfl

/-! ## Rows around a place -/

namespace Layer

/-- The rows on this level before the place. -/
def rowsBefore : Layer → List (Head × Nat)
  | document => [(.document, 1)]
  | elements before after => (.elements, before.length + (after.length + 1)) :: rowsAll before
  | block before after => (.block, before.length + (after.length + 1)) :: rowsAll before
  | element tag id attributes => [(.element ⟨tag, id, attributes⟩, 1)]
  | binding key => [(.binding key, 1)]

/-- The rows on this level behind the place. -/
def rowsAfter : Layer → List (Head × Nat)
  | elements _ after | block _ after => rowsAll after
  | _ => []

end Layer

namespace Place

/-- The rows before the place. -/
def rowsBefore : Place → List (Head × Nat)
  | here => []
  | inside layer place => layer.rowsBefore ++ rowsBefore place

/-- The rows behind the place. -/
def rowsAfter : Place → List (Head × Nat)
  | here => []
  | inside layer place => rowsAfter place ++ layer.rowsAfter

end Place

theorem rows_around (layer : Layer) (node : Node) :
    (layer.around node).rows = layer.rowsBefore ++ (node.rows ++ layer.rowsAfter) := by
  rw [rows_eq_cons]
  cases layer with
  | document | binding key | element tag id attributes =>
    simp [Layer.around, row, head, children, rowsAll_cons, Layer.rowsBefore, Layer.rowsAfter]
  | elements before after | block before after =>
    simp [Layer.around, row, head, children, rowsAll_append, rowsAll_cons, Layer.rowsBefore,
      Layer.rowsAfter]

/-- The rows before and behind a place are there whatever node fills it. -/
theorem rows_fill (place : Place) (node : Node) :
    (place.fill node).rows = place.rowsBefore ++ (node.rows ++ place.rowsAfter) := by
  induction place with
  | here => simp [Place.fill, Place.rowsBefore, Place.rowsAfter]
  | inside layer place ih =>
    simp [Place.fill, Place.rowsBefore, Place.rowsAfter, rows_around, ih]

/-! ## Elements -/

variable {node : Node} {found : Element}

theorem children_of_element? (h : node.element? = some found) :
    node.children = found.body.toList := by
  cases node with
  | element tag id attributes body =>
    rw [element?] at h
    split at h <;> cases h
    rfl
  | _ => cases h

theorem element?_withElement (h : node.element? = some found) (content : Element) :
    (node.withElement content).element? = some content := by
  cases node with
  | element tag id attributes body =>
    rw [element?] at h
    split at h
    · cases h
    · rename_i hcustom
      rw [withElement, element?, if_neg hcustom]
  | _ => cases h

theorem tagName_withElement (content : Element) (node : Node) :
    (node.withElement content).tagName = node.tagName := by
  cases node <;> rfl

/-- An element in a place, with what stands before it, in it and behind it. -/
theorem rows_of_element? (place : Place) (h : node.element? = some found) :
    (place.fill node).rows =
      place.rowsBefore ++ (node.row :: rowsAll found.body.toList ++ place.rowsAfter) := by
  rw [rows_fill, rows_eq_cons, children_of_element? h]

/-- All lookups of a number come to the same element, before which nothing answers to the number, or
all of them come to nothing, and then nothing in the tree answers to it. A change of the element
that is found leaves its tag as it was, and all nodes before it and behind its body in their
order. -/
theorem lookups_agree (tree : Node) (id : Nat) :
    (∃ place node found, tree.Selects id place node found ∧ place.IsFirst id ∧
      tree.rows = place.rowsBefore ++ (node.row :: rowsAll found.body.toList ++ place.rowsAfter) ∧
      ∀ change : Element → Element, ∃ changed,
        tree.updateElement id change = some (place.fill changed) ∧
        changed.element? = some (change found) ∧ changed.tagName = node.tagName ∧
        (place.fill changed).rows = place.rowsBefore ++
          (changed.row :: rowsAll (change found).body.toList ++ place.rowsAfter)) ∨
    tree.Misses id ∧ ∀ node ∈ tree.walk, hasId id node = false := by
  rcases tree.selects_or_misses id with ⟨place, node, found, hselects, hplace⟩ | hmisses
  · refine .inl ⟨place, node, found, hselects, hplace, ?_, fun change => ?_⟩
    · rw [hselects.tree_eq]
      exact rows_of_element? place hselects.element?_eq
    · have helement := element?_withElement hselects.element?_eq (change found)
      exact ⟨node.withElement (change found), hselects.updateElement_eq change, helement,
        tagName_withElement _ node, rows_of_element? place helement⟩
  · refine .inr ⟨hmisses, fun node hnode => ?_⟩
    have hnone := List.find?_eq_none.mp hmisses.findNode_eq node hnode
    exact eq_false_of_ne_true hnone

/-- Of two elements with one number the first is changed, also where it is bound to a key. -/
example :
    let value := element .paragraph 3 none none
    let other := element .bold 3 none (some (.string "x"))
    (block [binding "k" value, other]).updateElement 3
        (fun content => { content with body := some (.string "y") }) =
      some (block [binding "k" (element .paragraph 3 none (some (.string "y"))), other]) := rfl

end ChatMarkup.Node
