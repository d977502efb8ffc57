import ChatMarkup.Proofs.Source.Numbering
import ChatMarkup.Proofs.Tree.Place

/-!
# The numbers of a document as addresses

The elements of a document that was read are numbered as they open, so that the number of an element
is how many open before it. Every lookup of a number therefore comes to the element that opens with
this count, unless that has a tag of the author's own, which no lookup sees.

* `Source.lookups_of_read`: what each number leads to in a document.
-/

namespace ChatMarkup

namespace Node

/-- The nodes of the elements, whatever their tags, in the order of the walk. -/
def tagged (tree : Node) : List Node :=
  tree.walk.filter fun node => node.opening?.isSome

theorem map_opening?_tagged (tree : Node) : tree.tagged.map opening? = tree.openings.map some := by
  rw [tagged, openings]
  induction tree.walk with
  | nil => rfl
  | cons node nodes ih =>
    cases h : node.opening? with
    | none => rw [List.filter_cons_of_neg (by simp [h]), List.filterMap_cons_none h, ih]
    | some opening =>
      rw [List.filter_cons_of_pos (by simp [h]), List.filterMap_cons_some h, List.map_cons,
        List.map_cons, ih, h]

theorem length_tagged (tree : Node) : tree.tagged.length = tree.openings.length := by
  simpa using congrArg List.length (map_opening?_tagged tree)

/-- The element in a place is the one before which as many open as before the place. -/
theorem getElem?_tagged_fill (place : Place) {node : Node} (hnode : node.opening?.isSome) :
    (place.fill node).tagged[place.before.length]? = some node := by
  obtain ⟨xs, ys, hwalk, hxs⟩ := walk_fill place node
  have hlength : (xs.filter fun node => node.opening?.isSome).length = place.before.length := by
    rw [← hxs, List.length_filterMap_eq_countP, List.countP_eq_length_filter]
  rw [tagged, hwalk, List.filter_append, ← hlength, List.getElem?_append_right (Nat.le_refl _),
    Nat.sub_self, walk_eq_cons, List.cons_append, List.filter_cons, if_pos hnode]
  rfl

theorem eq_of_getElem?_range {n i id : Nat} (h : (List.range n)[i]? = some id) : id = i := by
  obtain ⟨hlt, hget⟩ := List.getElem?_eq_some_iff.mp h
  rw [← hget, List.getElem_range]

variable {tree node : Node}

theorem opening?_of_element? {found : Element} (h : node.element? = some found) :
    ∃ tag, node.opening? = some ⟨tag, found.id, found.attributes⟩ := by
  cases node with
  | element tag id attributes body =>
    rw [element?] at h
    split at h <;> cases h
    exact ⟨tag, rfl⟩
  | _ => cases h

/-- Where the elements are numbered as they open, the number of an element counts those that open
before it. -/
theorem length_before {place : Place} {n : Nat} (hids : (place.fill node).ids = List.range n)
    {found : Element} (h : node.element? = some found) : place.before.length = found.id := by
  obtain ⟨tag, hopening⟩ := opening?_of_element? h
  refine (eq_of_getElem?_range (n := n) ?_).symm
  rw [← hids, ids_eq_openings, openings_fill, openings_eq_cons node, hopening]
  simp

/-- There the element with a count of elements before it has this count as its number. -/
theorem id_of_getElem?_tagged {n i : Nat} (hids : tree.ids = List.range n)
    (hnode : tree.tagged[i]? = some node) {found : Element} (h : node.element? = some found) :
    found.id = i := by
  obtain ⟨tag, hopening⟩ := opening?_of_element? h
  have hmapped : (tree.openings.map some)[i]? = some (some ⟨tag, found.id, found.attributes⟩) := by
    rw [← map_opening?_tagged, List.getElem?_map, hnode, Option.map_some, hopening]
  have hopenings : tree.openings[i]? = some ⟨tag, found.id, found.attributes⟩ := by
    simpa using hmapped
  refine eq_of_getElem?_range (n := n) ?_
  rw [← hids, ids_eq_openings, List.getElem?_map, hopenings]
  rfl

end Node

namespace Source

open Node

/-- The elements of a document are numbered from zero on as they open. A number leads to the element
before which as many open, whichever way one looks for it, and to nothing if the element there has a
tag of the author's own, or if there are not so many. -/
theorem lookups_of_read {source : String} {tree : Node} (h : read source = .ok tree) :
    tree.ids = List.range tree.tagged.length ∧
      ∀ i,
        (∀ node found, tree.tagged[i]? = some node → node.element? = some found →
          ∃ place, place.before.length = i ∧ tree.Selects i place node found) ∧
        ((∀ node, tree.tagged[i]? = some node → node.element? = none) → tree.Misses i) := by
  obtain ⟨n, hids⟩ := ids_of_read h
  have hlength : tree.tagged.length = n := by
    rw [length_tagged, ← List.length_map (f := Opening.id), ← ids_eq_openings, hids,
      List.length_range]
  refine ⟨by rw [hlength, hids], fun i => ?_⟩
  -- What a number selects is the element with this count.
  have hcount : ∀ {place node found}, tree.Selects i place node found →
      place.before.length = i ∧ tree.tagged[i]? = some node := by
    rintro place node found ⟨rfl, helement, rfl, -, -, -⟩
    have hbefore := length_before hids helement
    obtain ⟨tag, hopening⟩ := opening?_of_element? helement
    refine ⟨hbefore, ?_⟩
    rw [← hbefore]
    exact getElem?_tagged_fill place (by rw [hopening]; rfl)
  rcases tree.selects_or_misses i with ⟨place, first, element, hselects, -⟩ | hmisses
  · obtain ⟨hbefore, htagged⟩ := hcount hselects
    refine ⟨fun node found hnode helement => ⟨place, hbefore, ?_⟩, fun hnone => ?_⟩
    · cases htagged.symm.trans hnode
      cases hselects.element?_eq.symm.trans helement
      exact hselects
    · cases hselects.element?_eq.symm.trans (hnone first htagged)
  · refine ⟨fun node found hnode helement => ?_, fun _ => hmisses⟩
    -- An element that is there is found by its number.
    have hid := id_of_getElem?_tagged hids hnode helement
    have hmem : node ∈ tree.walk := List.mem_of_mem_filter (List.mem_of_getElem? hnode)
    have hfound := findElement_of_mem (hids ▸ List.nodup_range) hmem helement
    rw [hid, hmisses.findElement_eq] at hfound
    cases hfound

/-- Elements around, in and behind one with a tag of the author's own. -/
theorem lookups_of_read_nested :
    ∃ tree, read "p \x7b note \x7b b `x` \x7d \x7d code \x7b `y` \x7d" = .ok tree ∧
      tree.tagged.map tagName = ["p", "note", "b", "code"] ∧ tree.ids = [0, 1, 2, 3] ∧
      tree.Misses 1 ∧ tree.Misses 4 ∧
      ∃ place node found, node.tagName = "b" ∧ place.before.length = 2 ∧
        tree.Selects 2 place node found := by
  have hrun : (read "p \x7b note \x7b b `x` \x7d \x7d code \x7b `y` \x7d").toOption.any
      (fun tree => tree.tagged.map (fun node => (node.tagName, node.element?.isSome)) =
        [("p", true), ("note", false), ("b", true), ("code", true)]) = true := by
    decide +kernel
  obtain ⟨tree, hread, htagged⟩ := (Option.any_eq_true _ _).mp hrun
  rw [decide_eq_true_eq] at htagged
  have hread := eq_ok_of_toOption hread
  obtain ⟨hids, hlookups⟩ := lookups_of_read hread
  have hnames : tree.tagged.map tagName = ["p", "note", "b", "code"] := by
    have := congrArg (List.map Prod.fst) htagged
    simpa [Function.comp_def] using this
  have hlength : tree.tagged.length = 4 := by simpa using congrArg List.length hnames
  have hat (i : Nat) : tree.tagged[i]?.map (fun node => (node.tagName, node.element?.isSome)) =
      [("p", true), ("note", false), ("b", true), ("code", true)][i]? := by
    rw [← htagged, List.getElem?_map]
  refine ⟨tree, hread, hnames, by rw [hids, hlength]; rfl, ?_, ?_, ?_⟩
  · refine (hlookups 1).2 fun node hnode => ?_
    have hnote := hat 1
    rw [hnode] at hnote
    simpa using congrArg (Option.map Prod.snd) hnote
  · refine (hlookups 4).2 fun node hnode => ?_
    have hend := hat 4
    rw [hnode] at hend
    cases hend
  · have hbold := hat 2
    obtain ⟨node, hnode, hpair⟩ := Option.map_eq_some_iff.mp hbold
    obtain ⟨hname, hsome⟩ := Prod.mk.injEq .. ▸ hpair
    obtain ⟨found, hfound⟩ := Option.isSome_iff_exists.mp hsome
    obtain ⟨place, hbefore, hselects⟩ := (hlookups 2).1 node found hnode hfound
    exact ⟨place, node, found, hname, hbefore, hselects⟩

end Source

end ChatMarkup
