import ChatMarkup.Tree.Stamp

/-!
# Elements found by their numbers

In a tree whose elements all have numbers of their own, looking for the number of an element finds
that element.

* `findNode_of_mem`, `findElement_of_mem`: an element of the walk is the one found by its number;
* `isSome_stamp`: a tree is stamped where an element lacks a file name.
-/

namespace ChatMarkup.Node

/-- The number of an element, whatever its tag. -/
def ownId? : Node → Option Nat
  | element _ id _ _ => some id
  | _ => none

/-- The numbers of all elements, in the order of the walk. -/
def ids (tree : Node) : List Nat :=
  tree.walk.filterMap ownId?

theorem ownId?_of_element? {node : Node} {found : Element} (h : node.element? = some found) :
    node.ownId? = some found.id := by
  cases node with
  | element tag id attributes body =>
    rw [element?] at h
    split at h
    · cases h
    · cases h
      rfl
  | _ => cases h

/-- The element that is found is the content of the node that is found. -/
theorem findElement_eq_bind (id : Nat) (tree : Node) :
    tree.findElement id = (tree.findNode id).bind element? := by
  rw [findElement, findNode]
  induction tree.walk with
  | nil => rfl
  | cons node nodes ih =>
    rw [List.findSome?_cons, List.find?_cons, ih, hasId]
    cases hnode : node.element? with
    | none => rfl
    | some found => by_cases hid : found.id = id <;> simp [hid, hnode, Option.filter_some]

/-- Among nodes whose numbers differ, an element is the first one with its number. -/
theorem find?_hasId_of_mem {nodes : List Node} (hnodup : (nodes.filterMap ownId?).Nodup)
    {node : Node} (hmem : node ∈ nodes) {found : Element} (h : node.element? = some found) :
    nodes.find? (hasId found.id) = some node := by
  induction nodes with
  | nil => cases hmem
  | cons first nodes ih =>
    rcases List.mem_cons.mp hmem with rfl | hmem
    · have hhas : hasId found.id node = true := by
        rw [hasId, h]
        exact decide_eq_true rfl
      exact List.find?_cons_of_pos hhas
    · -- the first node has another number, or none
      have hfirst : ¬hasId found.id first = true := by
        intro hhas
        obtain ⟨element, helement, hid⟩ := (Option.any_eq_true _ _).mp hhas
        have hown := ownId?_of_element? helement
        rw [List.filterMap_cons_some hown, List.nodup_cons] at hnodup
        exact hnodup.1 (of_decide_eq_true hid ▸
          List.mem_filterMap.mpr ⟨node, hmem, ownId?_of_element? h⟩)
      rw [List.find?_cons_of_neg hfirst]
      refine ih ?_ hmem
      exact hnodup.sublist ((List.sublist_cons_self first nodes).filterMap ownId?)

theorem findNode_of_mem {tree node : Node} (hnodup : tree.ids.Nodup) (hmem : node ∈ tree.walk)
    {found : Element} (h : node.element? = some found) :
    tree.findNode found.id = some node :=
  find?_hasId_of_mem hnodup hmem h

theorem findElement_of_mem {tree node : Node} (hnodup : tree.ids.Nodup) (hmem : node ∈ tree.walk)
    {found : Element} (h : node.element? = some found) :
    tree.findElement found.id = some found := by
  rw [findElement_eq_bind, findNode_of_mem hnodup hmem h, Option.bind_some, h]

/-! ## Elements that are changed -/

theorem isSome_findElement (id : Nat) (tree : Node) :
    (tree.findElement id).isSome = tree.walk.any (hasId id) := by
  rw [findElement]
  induction tree.walk with
  | nil => rfl
  | cons node nodes ih =>
    rw [List.findSome?_cons, List.any_cons, ← ih, hasId]
    cases node.element? with
    | none => rfl
    | some found => by_cases hid : found.id = id <;> simp [hid, Option.filter_some]

theorem any_walk (id : Nat) (node : Node) :
    node.walk.any (hasId id) = (hasId id node || (walkAll node.children).any (hasId id)) := by
  rw [walk_eq_cons, List.any_cons, walkAll_eq_flatMap]

theorem any_walkAll_singleton (id : Nat) (node : Node) :
    (walkAll [node]).any (hasId id) = node.walk.any (hasId id) := by
  rw [walkAll, walkAll, List.append_nil]

theorem hasId_element (id own : Nat) (tag : Tag) (attributes : Option (List Attribute))
    (body : Option Node) :
    hasId id (element tag own attributes body) = (!tag.isCustom && decide (own = id)) := by
  rw [hasId, element?]
  cases tag.isCustom <;> rfl

mutual

/-- A tree can be changed at the numbers of its elements. -/
theorem isSome_updateElement (id : Nat) (change : Element → Element) :
    ∀ tree : Node, (tree.updateElement id change).isSome = tree.walk.any (hasId id)
  | .document (some content) => by
    rw [updateElement, Option.isSome_map, any_walk, children, Option.toList, any_walkAll_singleton]
    exact isSome_updateElement id change content
  | .document none => rfl
  | .elements items | .block items => by
    rw [updateElement, Option.isSome_map, any_walk]
    exact isSome_updateAmong id change items
  | .element tag own attributes none => by
    rw [updateElement, any_walk, hasId_element]
    split
    · rename_i hown
      rw [hown]
      rfl
    · rename_i hown
      rw [eq_false_of_ne_true hown]
      rfl
  | .element tag own attributes (some body) => by
    rw [updateElement, any_walk, hasId_element, children, Option.toList, any_walkAll_singleton]
    split
    · rename_i hown
      rw [hown]
      rfl
    · rename_i hown
      rw [eq_false_of_ne_true hown, Option.isSome_map, Bool.false_or]
      exact isSome_updateElement id change body
  | .binding key value => by
    rw [updateElement, Option.isSome_map, any_walk, children, any_walkAll_singleton]
    exact isSome_updateElement id change value
  | .string _ | .number _ | .boolean _ | .identifier _ | .attributeList _ => rfl

theorem isSome_updateAmong (id : Nat) (change : Element → Element) :
    ∀ nodes : List Node,
      (updateAmong id change nodes).isSome = (walkAll nodes).any (hasId id)
  | [] => rfl
  | node :: nodes => by
    have hfirst := isSome_updateElement id change node
    rw [updateAmong, walkAll, List.any_append, ← hfirst]
    cases node.updateElement id change with
    | some node' => rfl
    | none =>
      rw [Option.isSome_map, Option.isSome_none, Bool.false_or]
      exact isSome_updateAmong id change nodes

end

/-- A tree is stamped where an element lacks a file name. -/
theorem isSome_stamp (tree : Node) (id : Nat) (filename : String) :
    (tree.stamp id filename).isSome = (tree.findElement id).any Element.lacksFilename := by
  rw [stamp]
  split
  · rename_i hlacks
    rw [hlacks, isSome_updateElement, ← isSome_findElement]
    cases hfind : tree.findElement id with
    | some _ => rfl
    | none =>
      rw [hfind] at hlacks
      cases hlacks
  · rename_i hlacks
    rw [eq_false_of_ne_true hlacks]
    rfl

end ChatMarkup.Node
