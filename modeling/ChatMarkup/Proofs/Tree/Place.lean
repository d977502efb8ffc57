import ChatMarkup.Proofs.Tree.Openings

/-!
# Places in a tree

A tree as one of its nodes and all that stands around it. The elements that open before a place do
not depend on the node that fills it, and changing the element there leaves what stands around as it
was. Looking for a number comes to the first element with it, whichever way one looks.

* `Node.Selects`: all lookups of a number come to one element in its place;
* `Node.selects_or_misses`: in any tree they do, or all of them come to nothing.
-/

namespace ChatMarkup.Node

/-- What stands around a node, one level up. -/
inductive Layer where
  | document
  | elements (before after : List Node)
  | block (before after : List Node)
  | element (tag : Tag) (id : Nat) (attributes : Option (List Attribute))
  | binding (key : String)

/-- A place in a tree: what stands around it, from the outermost level on. -/
inductive Place where
  | here
  | inside (layer : Layer) (place : Place)

namespace Layer

/-- The level with a node in its place. -/
def around : Layer → Node → Node
  | document, node => .document (some node)
  | elements before after, node => .elements (before ++ node :: after)
  | block before after, node => .block (before ++ node :: after)
  | element tag id attributes, node => .element tag id attributes (some node)
  | binding key, node => .binding key node

/-- The elements that open on this level before the place. -/
def before : Layer → List Opening
  | elements before _ | block before _ => Node.openingsAll before
  | element tag id attributes => [⟨tag, id, attributes⟩]
  | document | binding _ => []

/-- The elements that open on this level behind the place. -/
def after : Layer → List Opening
  | elements _ after | block _ after => Node.openingsAll after
  | _ => []

end Layer

namespace Place

/-- The tree with a node in this place. -/
def fill : Place → Node → Node
  | here, node => node
  | inside layer place, node => layer.around (fill place node)

/-- The elements that open before the place. -/
def before : Place → List Opening
  | here => []
  | inside layer place => layer.before ++ before place

/-- The elements that open behind the place. -/
def after : Place → List Opening
  | here => []
  | inside layer place => after place ++ layer.after

/-- No element that opens before the place answers to the number. -/
def IsFirst (place : Place) (id : Nat) : Prop :=
  place.before.any (Opening.answersTo · id) = false

end Place

/-- The node with the content of an element, if it is one. -/
def withElement (content : Element) : Node → Node
  | element tag _ _ _ => element tag content.id content.attributes content.body
  | node => node

/-- Whichever way one looks for a number, one comes to this element in this place: finding its node,
finding it, or changing it. -/
structure Selects (tree : Node) (id : Nat) (place : Place) (node : Node) (found : Element) :
    Prop where
  tree_eq : tree = place.fill node
  element?_eq : node.element? = some found
  id_eq : found.id = id
  findNode_eq : tree.findNode id = some node
  findElement_eq : tree.findElement id = some found
  updateElement_eq : ∀ change, tree.updateElement id change =
    some (place.fill (node.withElement (change found)))

/-- Whichever way one looks for a number, one comes to nothing. -/
structure Misses (tree : Node) (id : Nat) : Prop where
  findNode_eq : tree.findNode id = none
  findElement_eq : tree.findElement id = none
  updateElement_eq : ∀ change, tree.updateElement id change = none

/-! ## What opens around a place -/

theorem openingsAll_append (xs ys : List Node) :
    openingsAll (xs ++ ys) = openingsAll xs ++ openingsAll ys := by
  simp [openingsAll, walkAll_eq_flatMap]

theorem openings_around (layer : Layer) (node : Node) :
    (layer.around node).openings = layer.before ++ (node.openings ++ layer.after) := by
  cases layer with
  | document | binding key | element tag id attributes =>
    rw [Layer.around, openings_eq_cons]
    simp [opening?, children, openingsAll_singleton, Layer.before, Layer.after]
  | elements before after | block before after =>
    rw [Layer.around, openings_eq_cons]
    simp [opening?, children, openingsAll_append, openingsAll_cons, Layer.before, Layer.after]

theorem openings_fill (place : Place) (node : Node) :
    (place.fill node).openings = place.before ++ (node.openings ++ place.after) := by
  induction place with
  | here => simp [Place.fill, Place.before, Place.after]
  | inside layer place ih =>
    simp [Place.fill, Place.before, Place.after, openings_around, ih]

theorem walk_around (layer : Layer) (node : Node) :
    ∃ xs ys, (layer.around node).walk = xs ++ (node.walk ++ ys) ∧
      xs.filterMap opening? = layer.before := by
  cases layer with
  | document =>
    exact ⟨[.document (some node)], [], by simp [Layer.around, walk], rfl⟩
  | binding key =>
    exact ⟨[.binding key node], [], by simp [Layer.around, walk], rfl⟩
  | element tag id attributes =>
    exact ⟨[.element tag id attributes (some node)], [], by simp [Layer.around, walk], rfl⟩
  | elements before after =>
    refine ⟨.elements (before ++ node :: after) :: walkAll before, walkAll after, ?_, rfl⟩
    simp [Layer.around, walk, walkAll_eq_flatMap]
  | block before after =>
    refine ⟨.block (before ++ node :: after) :: walkAll before, walkAll after, ?_, rfl⟩
    simp [Layer.around, walk, walkAll_eq_flatMap]

theorem walk_fill (place : Place) (node : Node) :
    ∃ xs ys, (place.fill node).walk = xs ++ (node.walk ++ ys) ∧
      xs.filterMap opening? = place.before := by
  induction place with
  | here => exact ⟨[], [], by simp [Place.fill], rfl⟩
  | inside layer place ih =>
    obtain ⟨xs, ys, hwalk, hxs⟩ := ih
    obtain ⟨vs, zs, hlayer, hvs⟩ := walk_around layer (place.fill node)
    refine ⟨vs ++ xs, ys ++ zs, ?_, by simp [hvs, hxs, Place.before]⟩
    rw [Place.fill, hlayer, hwalk]
    simp

/-! ## Looking for a number -/

variable {id : Nat}

theorem hasId_eq (id : Nat) (node : Node) :
    hasId id node = node.opening?.any (Opening.answersTo · id) := by
  cases node with
  | element tag own attributes body => exact hasId_element id own tag attributes body
  | _ => rfl

theorem any_hasId (id : Nat) (nodes : List Node) :
    nodes.any (hasId id) = (nodes.filterMap opening?).any (Opening.answersTo · id) := by
  rw [List.any_filterMap]
  exact congrArg (nodes.any ·) (funext fun node => hasId_eq id node)

theorem updateElement_eq_none {tree : Node}
    (h : tree.openings.any (Opening.answersTo · id) = false) (change : Element → Element) :
    tree.updateElement id change = none := by
  rw [← Option.isSome_eq_false_iff.trans Option.isNone_iff_eq_none, isSome_updateElement,
    any_hasId]
  exact h

/-- Where nothing answers to the number, an element is looked for among the nodes behind. -/
theorem updateAmong_append {before : List Node}
    (h : (openingsAll before).any (Opening.answersTo · id) = false) (change : Element → Element)
    (nodes : List Node) :
    updateAmong id change (before ++ nodes) = (updateAmong id change nodes).map (before ++ ·) := by
  induction before with
  | nil => simp
  | cons first before ih =>
    rw [openingsAll_cons, List.any_append, Bool.or_eq_false_iff] at h
    rw [List.cons_append, updateAmong, updateElement_eq_none h.1, ih h.2, Option.map_map]
    rfl

/-- A change in a place is a change of the whole level, if nothing on it before the place answers to
the number. -/
theorem updateElement_around {layer : Layer}
    (hlayer : layer.before.any (Opening.answersTo · id) = false) {change : Element → Element}
    {node changed : Node} (h : node.updateElement id change = some changed) :
    (layer.around node).updateElement id change = some (layer.around changed) := by
  cases layer with
  | document | binding key =>
    rw [Layer.around, updateElement, h]
    rfl
  | element tag own attributes =>
    have hown : Opening.answersTo ⟨tag, own, attributes⟩ id = false := by
      simpa [Layer.before] using hlayer
    have hother : ¬(!tag.isCustom && decide (own = id)) = true := ne_true_of_eq_false hown
    rw [Layer.around, updateElement, if_neg hother, h]
    rfl
  | elements before after | block before after =>
    rw [Layer.around, updateElement, updateAmong_append hlayer, updateAmong, h]
    rfl

theorem updateElement_fill {place : Place} (hplace : place.IsFirst id) {change : Element → Element}
    {node changed : Node} (h : node.updateElement id change = some changed) :
    (place.fill node).updateElement id change = some (place.fill changed) := by
  induction place with
  | here => exact h
  | inside layer place ih =>
    rw [Place.IsFirst, Place.before, List.any_append, Bool.or_eq_false_iff] at hplace
    exact updateElement_around hplace.1 (ih hplace.2)

theorem updateElement_of_hasId {node : Node} {found : Element} (h : node.element? = some found)
    (change : Element → Element) :
    node.updateElement found.id change = some (node.withElement (change found)) := by
  cases node with
  | element tag own attributes body =>
    rw [element?] at h
    split at h
    · cases h
    · rename_i hcustom
      cases h
      cases body <;> simp [updateElement, hcustom, withElement]
  | _ => cases h

/-- An element in a place before which nothing answers to its number is the one that is found. -/
theorem selects_of_isFirst {place : Place} {node : Node} {found : Element}
    (h : node.element? = some found) (hplace : place.IsFirst found.id) :
    (place.fill node).Selects found.id place node found := by
  have hhas : hasId found.id node = true := by
    rw [hasId, h]
    simp
  obtain ⟨xs, ys, hwalk, hxs⟩ := walk_fill place node
  have hnone : xs.find? (hasId found.id) = none := by
    have hany := any_hasId found.id xs
    rw [hxs, hplace] at hany
    simpa using hany
  have hnode : (place.fill node).findNode found.id = some node := by
    rw [findNode, hwalk, List.find?_append, hnone, Option.none_or, walk_eq_cons, List.cons_append,
      List.find?_cons_of_pos hhas]
  refine ⟨rfl, h, rfl, hnode, ?_, fun change => ?_⟩
  · rw [findElement_eq_bind, hnode, Option.bind_some, h]
  · exact updateElement_fill hplace (updateElement_of_hasId h change)

/-! ## Places of elements -/

/-- The tree has a first place with an element that answers to the number. -/
def HasFirst (id : Nat) (tree : Node) : Prop :=
  ∃ place node found, tree = Place.fill place node ∧ node.element? = some found ∧ found.id = id ∧
    place.IsFirst id

theorem HasFirst.around {node : Node} (h : HasFirst id node) (layer : Layer)
    (hlayer : layer.before.any (Opening.answersTo · id) = false) :
    HasFirst id (layer.around node) := by
  obtain ⟨place, inner, found, rfl, helement, hid, hplace⟩ := h
  refine ⟨.inside layer place, inner, found, rfl, helement, hid, ?_⟩
  rw [Place.IsFirst, Place.before, List.any_append, hlayer, hplace]
  rfl

mutual

theorem hasFirst_of_answers (id : Nat) :
    ∀ tree : Node, tree.openings.any (Opening.answersTo · id) = true → HasFirst id tree
  | .document (some content), h => by
    rw [openings_eq_cons, children, Option.toList, openingsAll_singleton] at h
    exact (hasFirst_of_answers id content h).around .document rfl
  | .elements items, h => by
    rw [openings_eq_cons] at h
    obtain ⟨before, item, after, rfl, hbefore, hitem⟩ := hasFirst_among id items h
    exact hitem.around (.elements before after) hbefore
  | .block items, h => by
    rw [openings_eq_cons] at h
    obtain ⟨before, item, after, rfl, hbefore, hitem⟩ := hasFirst_among id items h
    exact hitem.around (.block before after) hbefore
  | .element tag own attributes body, h => by
    by_cases hown : Opening.answersTo ⟨tag, own, attributes⟩ id = true
    · obtain ⟨htag, rfl⟩ : tag.isCustom = false ∧ own = id := by
        simpa [Opening.answersTo] using hown
      exact ⟨.here, _, ⟨own, attributes, body⟩, rfl, by simp [element?, htag], rfl, rfl⟩
    · rw [openings_eq_cons, opening?, Option.toList, List.singleton_append, List.any_cons,
        eq_false_of_ne_true hown, Bool.false_or, children] at h
      cases body with
      | none => cases h
      | some body =>
        rw [Option.toList, openingsAll_singleton] at h
        exact (hasFirst_of_answers id body h).around (.element tag own attributes)
          (by simpa [Layer.before] using hown)
  | .binding key value, h => by
    rw [openings_eq_cons, children, openingsAll_singleton] at h
    exact (hasFirst_of_answers id value h).around (.binding key) rfl
  | .document none, h | .string _, h | .number _, h | .boolean _, h | .identifier _, h
  | .attributeList _, h => nomatch h

theorem hasFirst_among (id : Nat) :
    ∀ nodes : List Node, (openingsAll nodes).any (Opening.answersTo · id) = true →
      ∃ before node after, nodes = before ++ node :: after ∧
        (openingsAll before).any (Opening.answersTo · id) = false ∧ HasFirst id node
  | [], h => nomatch h
  | node :: nodes, h => by
    rw [openingsAll_cons, List.any_append] at h
    by_cases hnode : node.openings.any (Opening.answersTo · id) = true
    · exact ⟨[], node, nodes, rfl, rfl, hasFirst_of_answers id node hnode⟩
    · rw [eq_false_of_ne_true hnode, Bool.false_or] at h
      obtain ⟨before, found, after, rfl, hbefore, hfound⟩ := hasFirst_among id nodes h
      refine ⟨node :: before, found, after, rfl, ?_, hfound⟩
      rw [openingsAll_cons, List.any_append, eq_false_of_ne_true hnode, hbefore]
      rfl

end

theorem misses_of_not_answers {tree : Node}
    (h : tree.openings.any (Opening.answersTo · id) = false) : tree.Misses id := by
  have hnode : tree.findNode id = none := by
    have hany := any_hasId id tree.walk
    rw [← openings, h] at hany
    simpa [findNode] using hany
  refine ⟨hnode, ?_, updateElement_eq_none h⟩
  rw [findElement_eq_bind, hnode]
  rfl

/-- All lookups of a number come to the first element that answers to it, or all of them come to
nothing. -/
theorem selects_or_misses (tree : Node) (id : Nat) :
    (∃ place node found, tree.Selects id place node found ∧ place.IsFirst id) ∨
      tree.Misses id := by
  cases h : tree.openings.any (Opening.answersTo · id) with
  | false => exact .inr (misses_of_not_answers h)
  | true =>
    obtain ⟨place, node, found, rfl, helement, rfl, hplace⟩ := hasFirst_of_answers id tree h
    exact .inl ⟨place, node, found, selects_of_isFirst helement hplace, hplace⟩

end ChatMarkup.Node
