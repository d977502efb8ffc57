import ChatMarkup.Tree.Basic

/-!
# Finding an element

The element with a given id, looked up and changed in place.  All three functions mean the first
such element of the walk.
-/

namespace ChatMarkup.Node

/-- Whether the node is an element with this id. -/
def hasId (id : Nat) (node : Node) : Bool :=
  node.element?.any fun element => element.id = id

/-- The first node of the walk that is an element with this id. -/
def findNode (id : Nat) (node : Node) : Option Node :=
  node.walk.find? (hasId id)

/-- The first element of the walk with this id. -/
def findElement (id : Nat) (node : Node) : Option Element :=
  node.walk.findSome? fun found => found.element?.filter fun element => element.id = id

mutual

/-- The tree with the first element of this id changed; none if there is no such element. -/
def updateElement (id : Nat) (change : Element → Element) : Node → Option Node
  | document (some content) =>
    (updateElement id change content).map fun content => document (some content)
  | elements items => (updateAmong id change items).map elements
  | block items => (updateAmong id change items).map block
  | element tag own attributes none =>
    if !tag.isCustom && own = id then
      let changed := change ⟨own, attributes, none⟩
      some (element tag changed.id changed.attributes changed.body)
    else none
  | element tag own attributes (some body) =>
    if !tag.isCustom && own = id then
      let changed := change ⟨own, attributes, some body⟩
      some (element tag changed.id changed.attributes changed.body)
    else (updateElement id change body).map fun body => element tag own attributes (some body)
  | binding key value => (updateElement id change value).map fun value => binding key value
  | _ => none

/-- The nodes with the first element of this id changed. -/
def updateAmong (id : Nat) (change : Element → Element) : List Node → Option (List Node)
  | [] => none
  | node :: nodes =>
    match updateElement id change node with
    | some changed => some (changed :: nodes)
    | none => (updateAmong id change nodes).map (node :: ·)

end

end ChatMarkup.Node
