import ChatMarkup.Proofs.Tree.Search
import ChatMarkup.Proofs.Tree.Settled

/-!
# One element changed

What a change of one element does to the rest of its tree: the attributes of every other element
stay as they are, and no number comes in that the change does not bring.

* `attributesAt_updateElement`: the attributes of all elements after a change of those of one;
* `attributesAt_stamp`: the attributes of all elements after a stamp;
* `numbers_updateElement`: the numbers after a change that brings none.
-/

namespace ChatMarkup.Node

/-! ## Attributes -/

/-- The attributes of a node, if it is an element with this number. -/
def attributesIf (id : Nat) (node : Node) : Option (Option (List Attribute)) :=
  (node.element?.filter fun element => element.id = id).map Element.attributes

/-- The attributes of the first of some nodes that is an element with this number. -/
def attributesAmong (id : Nat) (nodes : List Node) : Option (Option (List Attribute)) :=
  nodes.findSome? (attributesIf id)

/-- The attributes of the element with this number. -/
def attributesAt (id : Nat) (tree : Node) : Option (Option (List Attribute)) :=
  attributesAmong id tree.walk

theorem attributesAt_eq (id : Nat) (tree : Node) :
    tree.attributesAt id = (tree.findElement id).map Element.attributes := by
  rw [findElement, List.map_findSome?]
  rfl

theorem attributesIf_element (id own : Nat) (tag : Tag) (attributes : Option (List Attribute))
    (body : Option Node) :
    attributesIf id (element tag own attributes body) =
      if !tag.isCustom && own = id then some attributes else none := by
  rw [attributesIf, element?]
  cases tag.isCustom with
  | true => rfl
  | false => by_cases hown : own = id <;> simp [hown, Option.filter_some]

theorem attributesAmong_cons (id : Nat) (node : Node) (nodes : List Node) :
    attributesAmong id (node :: nodes) = (attributesIf id node).or (attributesAmong id nodes) := by
  rw [attributesAmong, List.findSome?_cons]
  cases attributesIf id node <;> rfl

theorem attributesAmong_append (id : Nat) (nodes others : List Node) :
    attributesAmong id (nodes ++ others) =
      (attributesAmong id nodes).or (attributesAmong id others) :=
  List.findSome?_append

theorem isSome_attributesAt (id : Nat) (change : Element → Element) (tree : Node) :
    (tree.attributesAt id).isSome = (tree.updateElement id change).isSome := by
  rw [attributesAt_eq, Option.isSome_map, isSome_findElement, isSome_updateElement]

/-- Looking in nodes where those of one element have changed. -/
def Changes (id : Nat) (f : Option (List Attribute) → Option (List Attribute))
    (before after : List Node) : Prop :=
  ∀ other, attributesAmong other after =
    if other = id then (attributesAmong id before).map f else attributesAmong other before

variable {id : Nat} {f : Option (List Attribute) → Option (List Attribute)}

/-- The attributes of an element changed. -/
def reattribute (f : Option (List Attribute) → Option (List Attribute)) (element : Element) :
    Element :=
  { element with attributes := f element.attributes }

/-- A node that is no such element, before nodes in which one has changed. -/
theorem Changes.cons {before after : List Node} (h : Changes id f before after) {node node' : Node}
    (hsame : ∀ other, attributesIf other node' = attributesIf other node)
    (hnot : attributesIf id node = none) : Changes id f (node :: before) (node' :: after) := by
  intro other
  rw [attributesAmong_cons, attributesAmong_cons, attributesAmong_cons, hsame, hnot, h other]
  split
  · rename_i hother
    rw [hother, hnot]
    rfl
  · rfl

/-- Nodes in which one has changed, before others. -/
theorem Changes.append_right {before after : List Node} (h : Changes id f before after)
    (hsome : (attributesAmong id before).isSome) (nodes : List Node) :
    Changes id f (before ++ nodes) (after ++ nodes) := by
  intro other
  obtain ⟨attributes, hattributes⟩ := Option.isSome_iff_exists.mp hsome
  rw [attributesAmong_append, attributesAmong_append, attributesAmong_append, h other]
  split
  · rw [hattributes]
    rfl
  · rfl

/-- Nodes without such an element, before others in which one has changed. -/
theorem Changes.append_left {before after : List Node} (h : Changes id f before after)
    {nodes : List Node} (hnone : attributesAmong id nodes = none) :
    Changes id f (nodes ++ before) (nodes ++ after) := by
  intro other
  rw [attributesAmong_append, attributesAmong_append, attributesAmong_append, h other, hnone]
  split
  · rename_i hother
    rw [hother, hnone]
    rfl
  · rfl

/-- The element that changes, before the nodes of its body. -/
theorem changes_element {tag : Tag} (htag : tag.isCustom = false)
    (attributes : Option (List Attribute)) (body : Option Node) (nodes : List Node) :
    Changes id f (element tag id attributes body :: nodes)
      (element tag id (f attributes) body :: nodes) := by
  intro other
  simp only [attributesAmong_cons, attributesIf_element, htag, Bool.not_false, Bool.true_and,
    decide_eq_true_eq]
  by_cases hother : other = id
  · simp [hother]
  · simp [hother, Ne.symm hother]

theorem walk_element (tag : Tag) (own : Nat) (attributes : Option (List Attribute))
    (body : Node) :
    (element tag own attributes (some body)).walk =
      element tag own attributes (some body) :: body.walk := by
  rw [walk]

mutual

theorem changes_updateElement (id : Nat) (f : Option (List Attribute) → Option (List Attribute)) :
    ∀ (tree changed : Node), tree.updateElement id (reattribute f) = some changed →
      Changes id f tree.walk changed.walk
  | .document (some content), changed, h => by
    rw [updateElement] at h
    obtain ⟨content', hcontent, rfl⟩ := Option.map_eq_some_iff.mp h
    exact (changes_updateElement id f content content' hcontent).cons (fun _ => rfl) rfl
  | .elements items, changed, h | .block items, changed, h => by
    rw [updateElement] at h
    obtain ⟨items', hitems, rfl⟩ := Option.map_eq_some_iff.mp h
    exact (changes_updateAmong id f items items' hitems).cons (fun _ => rfl) rfl
  | .element tag own attributes none, changed, h => by
    rw [updateElement] at h
    split at h
    · rename_i hown
      simp only [Bool.and_eq_true, Bool.not_eq_true', decide_eq_true_eq] at hown
      obtain ⟨htag, rfl⟩ := hown
      cases h
      exact changes_element htag attributes none []
    · cases h
  | .element tag own attributes (some body), changed, h => by
    rw [updateElement] at h
    split at h
    · rename_i hown
      simp only [Bool.and_eq_true, Bool.not_eq_true', decide_eq_true_eq] at hown
      obtain ⟨htag, rfl⟩ := hown
      cases h
      rw [walk_element]
      exact changes_element htag attributes (some body) body.walk
    · rename_i hown
      obtain ⟨body', hbody, rfl⟩ := Option.map_eq_some_iff.mp h
      rw [walk_element, walk_element]
      refine (changes_updateElement id f body body' hbody).cons (fun other => ?_) ?_
      · rw [attributesIf_element, attributesIf_element]
      · rw [attributesIf_element, if_neg hown]
  | .binding key value, changed, h => by
    rw [updateElement] at h
    obtain ⟨value', hvalue, rfl⟩ := Option.map_eq_some_iff.mp h
    exact (changes_updateElement id f value value' hvalue).cons (fun _ => rfl) rfl
  | .document none, _, h | .string _, _, h | .number _, _, h | .boolean _, _, h
  | .identifier _, _, h | .attributeList _, _, h => nomatch h

theorem changes_updateAmong (id : Nat) (f : Option (List Attribute) → Option (List Attribute)) :
    ∀ (nodes changed : List Node), updateAmong id (reattribute f) nodes = some changed →
      Changes id f (walkAll nodes) (walkAll changed)
  | [], _, h => nomatch h
  | node :: nodes, changed, h => by
    have hfound := isSome_attributesAt id (reattribute f) node
    rw [updateAmong] at h
    split at h
    · rename_i node' hnode
      cases h
      rw [hnode] at hfound
      exact (changes_updateElement id f node node' hnode).append_right hfound _
    · rename_i hnode
      obtain ⟨nodes', hnodes, rfl⟩ := Option.map_eq_some_iff.mp h
      rw [hnode] at hfound
      exact (changes_updateAmong id f nodes nodes' hnodes).append_left
        (Option.not_isSome_iff_eq_none.mp (ne_true_of_eq_false hfound))

end

/-- The attributes of all elements after those of one have changed. -/
theorem attributesAt_updateElement {tree changed : Node}
    (h : tree.updateElement id (reattribute f) = some changed) (other : Nat) :
    changed.attributesAt other =
      if other = id then (tree.attributesAt id).map f else tree.attributesAt other :=
  changes_updateElement id f tree changed h other

/-- An attribute list with a file name at its end, if it names no file. -/
def named (filename : String) (attributes : Option (List Attribute)) : Option (List Attribute) :=
  attributes.map fun entries =>
    if Attributes.contains entries filenameKey then entries
    else entries ++ [⟨filenameKey, .string filename⟩]

theorem named_of_lacks {element : Element} (h : element.lacksFilename = true) (filename : String) :
    named filename element.attributes = (element.withFilename filename).attributes := by
  obtain ⟨entries, hentries, hlacks⟩ := (Option.any_eq_true _ _).mp h
  rw [Element.withFilename, named, hentries, Option.map_some, Option.map_some]
  rw [Bool.not_eq_true'] at hlacks
  rw [hlacks]
  rfl

theorem named_of_not_lacks {element : Element} (h : element.lacksFilename = false)
    (filename : String) : named filename element.attributes = element.attributes := by
  rw [Element.lacksFilename] at h
  cases hentries : element.attributes with
  | none => rfl
  | some entries =>
    rw [hentries, Option.any_some, Bool.not_eq_false'] at h
    rw [named, Option.map_some, h]
    rfl

/-- After a stamp each element has the attributes that it had, and the stamped one a file name. -/
theorem attributesAt_stamp (tree : Node) (id : Nat) (filename : String) (other : Nat) :
    ((tree.stamp id filename).getD tree).attributesAt other =
      if other = id then (tree.attributesAt id).map (named filename)
      else tree.attributesAt other := by
  rw [stamp]
  cases hfind : tree.findElement id with
  | none =>
    rw [attributesAt_eq id, hfind]
    show tree.attributesAt other = _
    split
    · rename_i hother
      rw [hother, attributesAt_eq, hfind]
      rfl
    · rfl
  | some element =>
    have hat : tree.attributesAt id = some element.attributes := by
      rw [attributesAt_eq, hfind]
      rfl
    rw [Option.any_some]
    cases hlacks : element.lacksFilename with
    | false =>
      show tree.attributesAt other = _
      rw [hat, Option.map_some, named_of_not_lacks hlacks]
      split
      · rename_i hother
        rw [hother, hat]
      · rfl
    | true =>
      have hupdate := isSome_attributesAt id (fun element => element.withFilename filename) tree
      rw [hat] at hupdate
      obtain ⟨stamped, hstamped⟩ := Option.isSome_iff_exists.mp hupdate.symm
      rw [if_pos rfl, hstamped, Option.getD_some, attributesAt_updateElement hstamped]
      split
      · rw [hat, Option.map_some, Option.map_some, named_of_lacks hlacks]
        rfl
      · rfl

/-! ## Numbers -/

/-- The numbers of an element. -/
def numbersOfElement (element : Element) : List Number :=
  numbersOfHead element.attributes ++ numbersOfBody element.body

/-- A change that brings no number into an element. -/
def BringsNoNumber (change : Element → Element) : Prop :=
  ∀ element, numbersOfElement (change element) ⊆ numbersOfElement element

theorem numbersOfEntries_append (entries others : List Attribute) :
    numbersOfEntries (entries ++ others) = numbersOfEntries entries ++ numbersOfEntries others := by
  induction entries with
  | nil => simp [numbersOfEntries]
  | cons entry entries ih => simp [numbersOfEntries, ih]

theorem bringsNoNumber_withFilename (filename : String) :
    BringsNoNumber fun element => element.withFilename filename := by
  rintro ⟨id, attributes, body⟩
  cases attributes with
  | none => exact List.Subset.refl _
  | some entries =>
    simp only [numbersOfElement, Element.withFilename, Option.map_some, numbersOfHead,
      numbersOfEntries_append]
    simp [numbersOfEntries, numbers]

theorem bringsNoNumber_code (code : String) :
    BringsNoNumber fun element => { element with body := some (.block [.string code]) } := by
  intro element
  simp [numbersOfElement, numbersOfBody, numbers, numbersOfAll]

mutual

theorem numbers_updateElement {id : Nat} {change : Element → Element}
    (hchange : BringsNoNumber change) :
    ∀ (tree changed : Node), tree.updateElement id change = some changed →
      changed.numbers ⊆ tree.numbers
  | .document (some content), changed, h => by
    rw [updateElement] at h
    obtain ⟨content', hcontent, rfl⟩ := Option.map_eq_some_iff.mp h
    rw [numbers, numbers]
    exact numbers_updateElement hchange content content' hcontent
  | .elements items, changed, h | .block items, changed, h => by
    rw [updateElement] at h
    obtain ⟨items', hitems, rfl⟩ := Option.map_eq_some_iff.mp h
    rw [numbers, numbers]
    exact numbers_updateAmong hchange items items' hitems
  | .element tag own attributes none, changed, h => by
    rw [updateElement] at h
    split at h
    · cases h
      exact hchange ⟨own, attributes, none⟩
    · cases h
  | .element tag own attributes (some body), changed, h => by
    rw [updateElement] at h
    split at h
    · cases h
      exact hchange ⟨own, attributes, some body⟩
    · obtain ⟨body', hbody, rfl⟩ := Option.map_eq_some_iff.mp h
      rw [numbers, numbers]
      have hrest : numbers body' ⊆ numbers body := numbers_updateElement hchange body body' hbody
      exact List.append_subset.mpr ⟨List.subset_append_left _ _,
        List.subset_append_of_subset_right _ hrest⟩
  | .binding key value, changed, h => by
    rw [updateElement] at h
    obtain ⟨value', hvalue, rfl⟩ := Option.map_eq_some_iff.mp h
    rw [numbers, numbers]
    exact numbers_updateElement hchange value value' hvalue
  | .document none, _, h | .string _, _, h | .number _, _, h | .boolean _, _, h
  | .identifier _, _, h | .attributeList _, _, h => nomatch h

theorem numbers_updateAmong {id : Nat} {change : Element → Element}
    (hchange : BringsNoNumber change) :
    ∀ (nodes changed : List Node), updateAmong id change nodes = some changed →
      numbersOfAll changed ⊆ numbersOfAll nodes
  | [], _, h => nomatch h
  | node :: nodes, changed, h => by
    rw [updateAmong] at h
    split at h
    · rename_i node' hnode
      cases h
      rw [numbersOfAll, numbersOfAll]
      have hfirst : numbers node' ⊆ numbers node := numbers_updateElement hchange node node' hnode
      exact List.append_subset.mpr ⟨List.subset_append_of_subset_left _ hfirst,
        List.subset_append_right _ _⟩
    · obtain ⟨nodes', hnodes, rfl⟩ := Option.map_eq_some_iff.mp h
      rw [numbersOfAll, numbersOfAll]
      have hrest := numbers_updateAmong hchange nodes nodes' hnodes
      exact List.append_subset.mpr ⟨List.subset_append_left _ _,
        List.subset_append_of_subset_right _ hrest⟩

end

/-- A stamp brings no number into a tree. -/
theorem numbers_stamp {tree stamped : Node} {id : Nat} {filename : String}
    (h : tree.stamp id filename = some stamped) : stamped.numbers ⊆ tree.numbers := by
  rw [stamp] at h
  split at h
  · exact numbers_updateElement (bringsNoNumber_withFilename filename) tree stamped h
  · cases h

end ChatMarkup.Node
