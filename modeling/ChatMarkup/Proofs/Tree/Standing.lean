import ChatMarkup.Tree.Basic
import Mathlib.Data.List.Basic

/-!
# What nodes are below

The walk of a tree, where each node is told together with the nodes that it is below. Which nodes
are met by something that goes through a tree, and stops at some of them, is then a matter of what
is above each.

* `standings_eq_cons`: a node comes before what is below it, which has the node above it;
* `map_node_standings`: without what is above them, the nodes are those of the walk;
* `cutBelow_eq_cons`: the walk with all cut off that is below some of the nodes.
-/

namespace ChatMarkup

/-- A node of a tree and the nodes that it is below, from the innermost on. -/
structure Standing where
  node : Node
  above : List Node

/-- Whether the node is below one of these. -/
def Standing.isBelow (p : Node → Bool) (standing : Standing) : Bool :=
  standing.above.any p

namespace Node

mutual

/-- The nodes in the order of the walk, each with what it is below: of the node itself, `above`. -/
def standings (above : List Node) : Node → List Standing
  | document (some content) =>
    ⟨document (some content), above⟩ :: standings (document (some content) :: above) content
  | elements items => ⟨elements items, above⟩ :: standingsAll (elements items :: above) items
  | block items => ⟨block items, above⟩ :: standingsAll (block items :: above) items
  | element tag id attributes (some body) =>
    ⟨element tag id attributes (some body), above⟩ ::
      standings (element tag id attributes (some body) :: above) body
  | binding key value => ⟨binding key value, above⟩ :: standings (binding key value :: above) value
  | node => [⟨node, above⟩]

def standingsAll (above : List Node) : List Node → List Standing
  | [] => []
  | node :: nodes => standings above node ++ standingsAll above nodes

end

theorem standingsAll_eq_flatMap (above : List Node) (nodes : List Node) :
    standingsAll above nodes = nodes.flatMap (standings above) := by
  induction nodes with
  | nil => rfl
  | cons node nodes ih => rw [standingsAll, ih, List.flatMap_cons]

theorem standings_eq_cons (above : List Node) (node : Node) :
    node.standings above = ⟨node, above⟩ :: node.children.flatMap (standings (node :: above)) := by
  cases node with
  | document content => cases content <;> simp [standings, children]
  | elements items => simp [standings, children, standingsAll_eq_flatMap]
  | block items => simp [standings, children, standingsAll_eq_flatMap]
  | element tag id attributes body => cases body <;> simp [standings, children]
  | binding key value => simp [standings, children]
  | _ => simp [standings, children]

mutual

/-- What every node has from the nodes right below it, every node has. -/
theorem induction_children {motive : Node → Prop}
    (h : ∀ node : Node, (∀ child ∈ node.children, motive child) → motive node) :
    ∀ node : Node, motive node
  | document none | string _ | number _ | boolean _ | identifier _ | attributeList _
  | element _ _ _ none => h _ fun _ hchild => nomatch hchild
  | document (some content) => h _ fun _ hchild =>
    List.mem_singleton.mp hchild ▸ induction_children h content
  | elements items => h _ (induction_children_all h items)
  | block items => h _ (induction_children_all h items)
  | element _ _ _ (some body) => h _ fun _ hchild =>
    List.mem_singleton.mp hchild ▸ induction_children h body
  | binding _ value => h _ fun _ hchild =>
    List.mem_singleton.mp hchild ▸ induction_children h value

theorem induction_children_all {motive : Node → Prop}
    (h : ∀ node : Node, (∀ child ∈ node.children, motive child) → motive node) :
    ∀ nodes : List Node, ∀ node ∈ nodes, motive node
  | [] => fun _ hnode => nomatch hnode
  | first :: nodes => List.forall_mem_cons.mpr
    ⟨induction_children h first, induction_children_all h nodes⟩

end

/-- The nodes are those of the walk. -/
theorem map_node_standings (above : List Node) (node : Node) :
    (node.standings above).map Standing.node = node.walk := by
  induction node using induction_children generalizing above with
  | h node ih =>
    rw [standings_eq_cons, walk_eq_cons, List.map_cons, List.map_flatMap]
    congr 1
    exact List.flatMap_congr fun child hchild => ih child hchild (node :: above)

/-- What is above a node is above everything below it. -/
theorem above_of_mem_standings {above : List Node} {node : Node} {standing : Standing}
    (h : standing ∈ node.standings above) : above <:+ standing.above := by
  induction node using induction_children generalizing above with
  | h node ih =>
    rw [standings_eq_cons, List.mem_cons] at h
    rcases h with rfl | h
    · exact List.suffix_refl _
    · obtain ⟨child, hchild, hmem⟩ := List.mem_flatMap.mp h
      exact (List.suffix_cons _ _).trans (ih child hchild hmem)

/-! ## Cut walks -/

/-- The nodes of a tree that are not below one of these. -/
def cutBelow (p : Node → Bool) (above : List Node) (node : Node) : List Standing :=
  (node.standings above).filter fun standing => !standing.isBelow p

variable {p : Node → Bool} {above : List Node}

theorem any_above_cons {node : Node} (hnode : p node = false) (habove : above.any p = false) :
    (node :: above).any p = false := by
  rw [List.any_cons, hnode, habove]
  rfl

theorem cutBelow_of_any (h : above.any p = true) (node : Node) : node.cutBelow p above = [] := by
  refine List.filter_eq_nil_iff.mpr fun standing hmem => ?_
  obtain ⟨inner, hinner⟩ := above_of_mem_standings hmem
  simp [Standing.isBelow, ← hinner, h]

/-- A node that is not cut off comes before the nodes below it, unless all of these are. -/
theorem cutBelow_eq_cons (h : above.any p = false) (node : Node) :
    node.cutBelow p above =
      ⟨node, above⟩ ::
        if p node then [] else node.children.flatMap (cutBelow p (node :: above)) := by
  rw [cutBelow, standings_eq_cons, List.filter_cons_of_pos (by simp [Standing.isBelow, h]),
    List.filter_flatMap]
  split
  · rename_i hp
    congr 1
    refine List.flatMap_eq_nil_iff.mpr fun child _ => ?_
    exact cutBelow_of_any (by rw [List.any_cons, hp, Bool.true_or]) child
  · rfl

end Node

end ChatMarkup
