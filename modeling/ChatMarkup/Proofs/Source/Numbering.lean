import ChatMarkup.Proofs.Source.Grammar
import ChatMarkup.Proofs.Tree.Search

/-!
# The numbers of a document

Elements get their numbers as they open, so that the walk over what was read so far, with the open
elements in their places, meets the numbers below the next one in their order. The invariant is
`Assembly.Numbered`; `ids_of_read` is what it comes to at the end of a document.
-/

namespace ChatMarkup

namespace Node

/-- The numbers of all elements of some nodes, in the order of the walk. -/
def idsOfAll (nodes : List Node) : List Nat :=
  (walkAll nodes).filterMap ownId?

theorem idsOfAll_nil : idsOfAll [] = [] := rfl

theorem idsOfAll_append (xs ys : List Node) : idsOfAll (xs ++ ys) = idsOfAll xs ++ idsOfAll ys := by
  simp [idsOfAll, walkAll_eq_flatMap]

theorem idsOfAll_singleton (node : Node) : idsOfAll [node] = node.ids := by
  simp [idsOfAll, ids, walkAll]

theorem ids_block (items : List Node) : (block items).ids = idsOfAll items := by
  rw [ids, walk_eq_cons, List.filterMap_cons, idsOfAll, walkAll_eq_flatMap]
  rfl

theorem ids_braced (tag : Tag) (id : Nat) (attributes : Option (List Attribute))
    (items : List Node) :
    (element tag id attributes (some (block items))).ids = id :: idsOfAll items := by
  rw [ids, walk_eq_cons, List.filterMap_cons, children, Option.toList, List.flatMap_singleton,
    ← ids_block]
  rfl

theorem ids_ofItems (items : List Node) : (ofItems items).ids = idsOfAll items := by
  rw [ids, ofItems, walk, walk, List.filterMap_cons, List.filterMap_cons]
  rfl

end Node

namespace Source.Assembly

/-- The numbers of the open elements and of what was read before each of them. -/
def idsOfFrames : List Frame → List Nat
  | [] => []
  | frame :: frames => idsOfFrames frames ++ (Node.idsOfAll frame.outer.reverse ++ [frame.id])

/-- Everything read so far is numbered in the order of the walk. -/
def Numbered (a : Assembly) : Prop :=
  idsOfFrames a.frames ++ Node.idsOfAll a.items.reverse = List.range a.nextId

theorem numbered_empty : empty.Numbered := rfl

/-- A literal has no number. -/
theorem Numbered.push {a : Assembly} (ha : a.Numbered) {node : Node} (hnode : node.ids = []) :
    (a.push node).Numbered := by
  rw [Numbered, Assembly.push, List.reverse_cons, Node.idsOfAll_append, Node.idsOfAll_singleton,
    hnode, List.append_nil]
  exact ha

theorem Numbered.close {a : Assembly} {frame : Frame} {frames : List Frame} (ha : a.Numbered)
    (hframes : a.frames = frame :: frames) : (a.close frame frames).Numbered := by
  rw [Numbered, hframes] at ha
  rw [Numbered, Assembly.close, List.reverse_cons, Node.idsOfAll_append, Node.idsOfAll_singleton,
    Node.ids_braced]
  simpa [idsOfFrames] using ha

theorem Numbered.readBody {a b : Assembly} {tag : Tag} {attributes : Option (List Attribute)}
    {cs rest : List Char} (ha : a.Numbered)
    (h : readBody { a with nextId := a.nextId + 1 } ⟨tag, a.nextId, attributes, a.items⟩ cs =
      .ok (b, rest)) : b.Numbered := by
  have hnext : idsOfFrames a.frames ++ (Node.idsOfAll a.items.reverse ++ [a.nextId]) =
      List.range (a.nextId + 1) := by
    rw [List.range_succ, ← List.append_assoc, ha]
  cases cs with
  | nil => cases h
  | cons c cs =>
    rw [Assembly.readBody] at h
    split at h
    · split at h
      · cases h
      · cases h
        simpa [Numbered, idsOfFrames, Node.idsOfAll_nil] using hnext
    · split at h
      · split at h
        · cases h
        · cases h
          rw [Numbered, Assembly.push, List.reverse_cons, Node.idsOfAll_append,
            Node.idsOfAll_singleton]
          exact hnext
      · cases h

theorem Numbered.readItem {a b : Assembly} {cs rest : List Char} (ha : a.Numbered)
    (h : a.readItem cs = .ok (b, rest)) : b.Numbered := by
  cases cs with
  | nil => cases h
  | cons c cs =>
    rw [Assembly.readItem] at h
    split at h
    · obtain ⟨text, -, rfl⟩ := Reading.map_eq_ok h
      exact ha.push rfl
    · obtain ⟨x, -, rfl⟩ := Reading.map_eq_ok h
      exact ha.push rfl
    · rw [Assembly.readElement] at h
      split at h
      · cases h
      · split at h
        · cases h
        · split at h
          · cases h
          · exact ha.readBody h
    · cases h

theorem Numbered.step {a b : Assembly} {cs rest : List Char} (ha : a.Numbered)
    (h : a.step cs = .ok (.next b rest)) : b.Numbered := by
  rw [Assembly.step] at h
  split at h
  · split at h <;> cases h
  · split at h
    · split at h
      · cases h
      · rename_i hframes
        cases h
        exact ha.close hframes
    · split at h
      · cases h
      · rename_i hitem
        cases h
        exact ha.readItem hitem

theorem Numbered.run {a : Assembly} {cs : List Char} {items : List Node} (ha : a.Numbered)
    (h : a.run cs = .ok items) : ∃ n, Node.idsOfAll items = List.range n := by
  fun_induction Assembly.run a cs with
  | case1 => cases h
  | case2 a cs items' hstep =>
    cases h
    obtain ⟨hframes, rfl⟩ := step_eq_done hstep
    rw [Numbered, hframes] at ha
    exact ⟨a.nextId, ha⟩
  | case3 _ _ _ _ hstep ih => exact ih (ha.step hstep) h

end Source.Assembly

namespace Source

/-- The elements of a document are numbered from zero on in the order of the walk. -/
theorem ids_of_read {source : String} {tree : Node} (h : read source = .ok tree) :
    ∃ n, tree.ids = List.range n := by
  obtain ⟨items, hrun, rfl⟩ := read_eq_ok h
  rw [Node.ids_ofItems]
  exact Assembly.numbered_empty.run hrun

theorem nodup_ids_of_read {source : String} {tree : Node} (h : read source = .ok tree) :
    tree.ids.Nodup := by
  obtain ⟨n, hn⟩ := ids_of_read h
  rw [hn]
  exact List.nodup_range

end Source

end ChatMarkup
