import ChatMarkup.Proofs.Tree.Update
import Mathlib.Data.List.Forall2

/-!
# Where file names come to

A tree is the same as its elements without their bodies, in the order of the walk, together with
what is left of it without any attribute list. A stamp changes the attribute list of one element:
the first one with its number, if this list names no file.

* `bared_stampAll`: stamps leave the tree without its attribute lists as it was;
* `openings_stampAll`: the elements after some stamps, each with the first name that was for it;
* `forall₂_gain`: each element is as it was, or has one attribute more;
* `stamped_stampAll`: the same of the elements by their numbers;
* `lacksAny_iff`: some stamp is set exactly if the tree changes.
-/

namespace ChatMarkup

/-- An element without its body. -/
structure Opening where
  tag : Tag
  id : Nat
  attributes : Option (List Attribute)

/-- The tree with these file names on its elements, where they lack one. -/
def Node.stampAll (tree : Node) (names : List (Nat × String)) : Node :=
  names.foldl (fun tree name => (tree.stamp name.1 name.2).getD tree) tree

theorem Node.stampAll_cons (tree : Node) (name : Nat × String) (names : List (Nat × String)) :
    tree.stampAll (name :: names) = ((tree.stamp name.1 name.2).getD tree).stampAll names := rfl

/-- Whether one of the elements that a file name is for lacks one. -/
def Node.lacksAny (tree : Node) (names : List (Nat × String)) : Bool :=
  names.any fun name => (tree.findElement name.1).any Element.lacksFilename

namespace Opening

/-- Whether a number means this element; none means one with a tag of the author's own. -/
def answersTo (opening : Opening) (id : Nat) : Bool :=
  !opening.tag.isCustom && opening.id = id

/-- The element with its attributes changed. -/
def reattribute (f : Option (List Attribute) → Option (List Attribute)) (opening : Opening) :
    Opening :=
  { opening with attributes := f opening.attributes }

/-- The element with a file name, if there is one for it and its list names none. -/
def withName (name : Option String) (opening : Opening) : Opening :=
  name.elim opening fun filename => opening.reattribute (Node.named filename)

/-- The elements with the first one that a number means changed. -/
def reattributeFirst (id : Nat) (f : Option (List Attribute) → Option (List Attribute)) :
    List Opening → List Opening
  | [] => []
  | opening :: openings =>
    if opening.answersTo id then opening.reattribute f :: openings
    else opening :: reattributeFirst id f openings

/-- The elements after some file names: the first one with a number has the first name for this
number. -/
def gain : List (Nat × String) → List Opening → List Opening
  | _, [] => []
  | names, opening :: openings =>
    if opening.tag.isCustom then opening :: gain names openings
    else
      opening.withName (names.lookup opening.id) ::
        gain (names.filter fun name => name.1 ≠ opening.id) openings

/-- The attributes of the first element that a number means. -/
def attributesOf (id : Nat) (openings : List Opening) : Option (Option (List Attribute)) :=
  openings.findSome? fun opening =>
    if opening.answersTo id then some opening.attributes else none

/-- An element before and after some file names: as it was, or with one of its names where it had
none. -/
inductive Gained (names : List (Nat × String)) : Opening → Opening → Prop
  | kept (opening : Opening) : Gained names opening opening
  | grown (tag : Tag) (id : Nat) (entries : List Attribute) (filename : String) :
      tag.isCustom = false → Attributes.contains entries filenameKey = false →
      (id, filename) ∈ names →
      Gained names ⟨tag, id, some entries⟩
        ⟨tag, id, some (entries ++ [⟨filenameKey, .string filename⟩])⟩

/-! ## Changes of one element -/

variable {id : Nat} {f g : Option (List Attribute) → Option (List Attribute)}

theorem reattributeFirst_cons_of_answers {opening : Opening} (h : opening.answersTo id = true)
    (openings : List Opening) :
    reattributeFirst id f (opening :: openings) = opening.reattribute f :: openings := by
  rw [reattributeFirst, if_pos h]

theorem reattributeFirst_cons_of_not {opening : Opening} (h : opening.answersTo id = false)
    (openings : List Opening) :
    reattributeFirst id f (opening :: openings) = opening :: reattributeFirst id f openings := by
  rw [reattributeFirst, if_neg (ne_true_of_eq_false h)]

theorem reattributeFirst_append_left {xs : List Opening} (h : xs.any (answersTo · id) = true)
    (ys : List Opening) : reattributeFirst id f (xs ++ ys) = reattributeFirst id f xs ++ ys := by
  induction xs with
  | nil => cases h
  | cons x xs ih =>
    rw [List.cons_append]
    cases hx : x.answersTo id with
    | true =>
      rw [reattributeFirst_cons_of_answers hx, reattributeFirst_cons_of_answers hx,
        List.cons_append]
    | false =>
      rw [List.any_cons, hx, Bool.false_or] at h
      rw [reattributeFirst_cons_of_not hx, reattributeFirst_cons_of_not hx, ih h, List.cons_append]

theorem reattributeFirst_append_right {xs : List Opening} (h : xs.any (answersTo · id) = false)
    (ys : List Opening) : reattributeFirst id f (xs ++ ys) = xs ++ reattributeFirst id f ys := by
  induction xs with
  | nil => rfl
  | cons x xs ih =>
    rw [List.any_cons, Bool.or_eq_false_iff] at h
    rw [List.cons_append, reattributeFirst_cons_of_not h.1, ih h.2, List.cons_append]

theorem attributesOf_cons (id : Nat) (opening : Opening) (openings : List Opening) :
    attributesOf id (opening :: openings) =
      if opening.answersTo id then some opening.attributes else attributesOf id openings := by
  rw [attributesOf, List.findSome?_cons]
  cases opening.answersTo id <;> rfl

/-- Only what a change makes of the attributes that it meets counts. -/
theorem reattributeFirst_congr {openings : List Opening}
    (h : ∀ attributes, attributesOf id openings = some attributes → f attributes = g attributes) :
    reattributeFirst id f openings = reattributeFirst id g openings := by
  induction openings with
  | nil => rfl
  | cons opening openings ih =>
    rw [reattributeFirst, reattributeFirst]
    rw [attributesOf_cons] at h
    split
    · rename_i hanswers
      rw [if_pos hanswers] at h
      rw [reattribute, reattribute, h _ rfl]
    · rename_i hanswers
      rw [if_neg hanswers] at h
      rw [ih h]

theorem reattributeFirst_id (openings : List Opening) :
    reattributeFirst id (fun attributes => attributes) openings = openings := by
  induction openings with
  | nil => rfl
  | cons opening openings ih =>
    rw [reattributeFirst, ih]
    split <;> rfl

/-! ## Changes of all elements -/

theorem gain_cons_custom {opening : Opening} (h : opening.tag.isCustom = true)
    (names : List (Nat × String)) (openings : List Opening) :
    gain names (opening :: openings) = opening :: gain names openings := by
  rw [gain, if_pos h]

theorem gain_cons_known {opening : Opening} (h : opening.tag.isCustom = false)
    (names : List (Nat × String)) (openings : List Opening) :
    gain names (opening :: openings) =
      opening.withName (names.lookup opening.id) ::
        gain (names.filter fun name => name.1 ≠ opening.id) openings := by
  rw [gain, if_neg (ne_true_of_eq_false h)]

theorem gain_nil (openings : List Opening) : gain [] openings = openings := by
  induction openings with
  | nil => rfl
  | cons opening openings ih =>
    rw [gain, List.filter_nil, ih]
    split <;> rfl

/-- A list that has been given a name is given no other. -/
theorem named_named (first second : String) (attributes : Option (List Attribute)) :
    Node.named second (Node.named first attributes) = Node.named first attributes := by
  cases attributes with
  | none => rfl
  | some entries =>
    rw [Node.named, Node.named, Option.map_some, Option.map_some]
    cases hcontains : Attributes.contains entries filenameKey with
    | true => rw [if_pos rfl, hcontains, if_pos rfl]
    | false =>
      have hnamed : Attributes.contains (entries ++ [⟨filenameKey, .string first⟩])
          filenameKey = true := by
        simp [Attributes.contains]
      rw [if_neg Bool.false_ne_true, hnamed, if_pos rfl]

theorem withName_reattribute (name : Option String) (filename : String) (opening : Opening) :
    (opening.reattribute (Node.named filename)).withName name =
      opening.reattribute (Node.named filename) := by
  cases name with
  | none => rfl
  | some second =>
    show Opening.mk _ _ (Node.named second (Node.named filename opening.attributes)) = _
    rw [named_named]
    rfl

/-- The first of some names comes before the others. -/
theorem gain_cons (id : Nat) (filename : String) (names : List (Nat × String))
    (openings : List Opening) :
    gain ((id, filename) :: names) openings =
      gain names (reattributeFirst id (Node.named filename) openings) := by
  induction openings generalizing names with
  | nil => rfl
  | cons opening openings ih =>
    rw [reattributeFirst, answersTo]
    cases hcustom : opening.tag.isCustom with
    | true =>
      rw [gain_cons_custom hcustom, ih]
      exact (gain_cons_custom hcustom _ _).symm
    | false =>
      rw [gain_cons_known hcustom, List.lookup_cons]
      by_cases hid : opening.id = id
      · have hsame : ((id, filename) :: names).filter (fun name => name.1 ≠ opening.id) =
            names.filter fun name => name.1 ≠ opening.id := by
          simp [hid]
        rw [hsame, beq_iff_eq.mpr hid, decide_eq_true hid]
        have hnamed : (opening.reattribute (Node.named filename)).tag.isCustom = false := hcustom
        show opening.reattribute (Node.named filename) :: _ =
          gain names (opening.reattribute (Node.named filename) :: openings)
        rw [gain_cons_known hnamed, withName_reattribute]
        rfl
      · have hother : ((id, filename) :: names).filter (fun name => name.1 ≠ opening.id) =
            (id, filename) :: names.filter fun name => name.1 ≠ opening.id := by
          simp [Ne.symm hid]
        rw [hother, ih, beq_eq_false_iff_ne.mpr hid, decide_eq_false hid]
        exact (gain_cons_known hcustom _ _).symm

theorem gained_withName {names : List (Nat × String)} {opening : Opening}
    (hcustom : opening.tag.isCustom = false) :
    Gained names opening (opening.withName (names.lookup opening.id)) := by
  obtain ⟨tag, id, attributes⟩ := opening
  cases hname : names.lookup id with
  | none => exact .kept _
  | some filename =>
    cases attributes with
    | none => exact .kept _
    | some entries =>
      have hmem : (id, filename) ∈ names := by
        obtain ⟨before, after, rfl, -⟩ := List.lookup_eq_some_iff.mp hname
        simp
      show Gained names _ ⟨tag, id, some (if _ then _ else _)⟩
      cases hcontains : Attributes.contains entries filenameKey with
      | true => exact .kept _
      | false => exact .grown tag id entries filename hcustom hcontains hmem

theorem Gained.mono {names more : List (Nat × String)} (hsub : names ⊆ more)
    {before after : Opening} (h : Gained names before after) : Gained more before after := by
  cases h with
  | kept => exact .kept _
  | grown tag id entries filename hcustom hlacks hmem =>
    exact .grown tag id entries filename hcustom hlacks (hsub hmem)

/-- Each element is as it was, or has one of its names at the end of a list that had none. -/
theorem forall₂_gain (names : List (Nat × String)) (openings : List Opening) :
    List.Forall₂ (Gained names) openings (gain names openings) := by
  induction openings generalizing names with
  | nil => exact .nil
  | cons opening openings ih =>
    cases hcustom : opening.tag.isCustom with
    | true =>
      rw [gain_cons_custom hcustom]
      exact .cons (.kept opening) (ih names)
    | false =>
      rw [gain_cons_known hcustom]
      refine .cons (gained_withName hcustom) ?_
      exact (ih _).imp fun _ _ h => h.mono List.filter_sublist.subset

end Opening

namespace Node

/-- An element without its body. -/
def opening? : Node → Option Opening
  | element tag id attributes _ => some ⟨tag, id, attributes⟩
  | _ => none

/-- The elements without their bodies, in the order of the walk. -/
def openings (tree : Node) : List Opening :=
  tree.walk.filterMap opening?

/-- The elements of some nodes. -/
def openingsAll (nodes : List Node) : List Opening :=
  (walkAll nodes).filterMap opening?

mutual

/-- The tree without the attribute lists of its elements. -/
def bared : Node → Node
  | document (some content) => document (some (bared content))
  | elements items => elements (baredAll items)
  | block items => block (baredAll items)
  | element tag id _ none => element tag id none none
  | element tag id _ (some body) => element tag id none (some (bared body))
  | binding key value => binding key (bared value)
  | node => node

def baredAll : List Node → List Node
  | [] => []
  | node :: nodes => bared node :: baredAll nodes

end

/-! ## Looking for an element -/

theorem openings_eq_cons (node : Node) :
    node.openings = node.opening?.toList ++ openingsAll node.children := by
  rw [openings, walk_eq_cons, List.filterMap_cons, openingsAll, walkAll_eq_flatMap]
  cases node.opening? <;> rfl

theorem openingsAll_cons (node : Node) (nodes : List Node) :
    openingsAll (node :: nodes) = node.openings ++ openingsAll nodes := by
  rw [openingsAll, walkAll, List.filterMap_append]
  rfl

theorem openingsAll_singleton (node : Node) : openingsAll [node] = node.openings := by
  rw [openingsAll_cons]
  exact List.append_nil _

/-- The numbers of a tree are those of its openings. -/
theorem ids_eq_openings (tree : Node) : tree.ids = tree.openings.map Opening.id := by
  rw [ids, openings, List.map_filterMap]
  refine List.filterMap_congr fun node _ => ?_
  cases node <;> rfl

theorem attributesIf_eq (id : Nat) (node : Node) :
    attributesIf id node = node.opening?.bind fun opening =>
      if opening.answersTo id then some opening.attributes else none := by
  cases node with
  | element tag own attributes body => exact attributesIf_element id own tag attributes body
  | _ => rfl

/-- The attributes of the element with a number are those of the first opening that it means. -/
theorem attributesAt_eq_attributesOf (id : Nat) (tree : Node) :
    tree.attributesAt id = Opening.attributesOf id tree.openings := by
  rw [attributesAt, openings]
  induction tree.walk with
  | nil => rfl
  | cons node nodes ih =>
    rw [attributesAmong_cons, attributesIf_eq, List.filterMap_cons, ih]
    cases node.opening? with
    | none => rfl
    | some opening =>
      rw [Opening.attributesOf_cons, Option.bind_some]
      split <;> rfl

theorem any_openings (id : Nat) (change : Element → Element) (tree : Node) :
    tree.openings.any (Opening.answersTo · id) = (tree.updateElement id change).isSome := by
  rw [← isSome_attributesAt, attributesAt_eq_attributesOf]
  induction tree.openings with
  | nil => rfl
  | cons opening openings ih =>
    rw [List.any_cons, Opening.attributesOf_cons, ih]
    cases opening.answersTo id <;> rfl

/-! ## Changing an element -/

mutual

/-- A change of the attributes of one element. -/
theorem changed_updateElement (id : Nat) (f : Option (List Attribute) → Option (List Attribute)) :
    ∀ (tree changed : Node), tree.updateElement id (reattribute f) = some changed →
      changed.openings = Opening.reattributeFirst id f tree.openings ∧ changed.bared = tree.bared
  | .document (some content), changed, h => by
    rw [updateElement] at h
    obtain ⟨content', hcontent, rfl⟩ := Option.map_eq_some_iff.mp h
    obtain ⟨hopenings, hbared⟩ := changed_updateElement id f content content' hcontent
    refine ⟨?_, by rw [bared, bared, hbared]⟩
    rw [openings_eq_cons, openings_eq_cons]
    simpa [opening?, children, openingsAll_singleton] using hopenings
  | .elements items, changed, h | .block items, changed, h => by
    rw [updateElement] at h
    obtain ⟨items', hitems, rfl⟩ := Option.map_eq_some_iff.mp h
    obtain ⟨hopenings, hbared⟩ := changed_updateAmong id f items items' hitems
    exact ⟨by simpa [openings_eq_cons, opening?, children] using hopenings,
      by rw [bared, bared, hbared]⟩
  | .element tag own attributes none, changed, h => by
    rw [updateElement] at h
    split at h
    · rename_i hown
      have hanswers : Opening.answersTo ⟨tag, own, attributes⟩ id = true := hown
      cases h
      exact ⟨(Opening.reattributeFirst_cons_of_answers hanswers []).symm, rfl⟩
    · cases h
  | .element tag own attributes (some body), changed, h => by
    have hopen (attributes : Option (List Attribute)) (body : Node) :
        (element tag own attributes (some body)).openings =
          ⟨tag, own, attributes⟩ :: body.openings := by
      rw [openings_eq_cons, children, Option.toList, openingsAll_singleton]
      rfl
    rw [updateElement] at h
    rw [hopen]
    split at h
    · rename_i hown
      have hanswers : Opening.answersTo ⟨tag, own, attributes⟩ id = true := hown
      cases h
      refine ⟨?_, rfl⟩
      rw [Opening.reattributeFirst_cons_of_answers hanswers]
      exact hopen _ _
    · rename_i hown
      have hanswers : Opening.answersTo ⟨tag, own, attributes⟩ id = false :=
        eq_false_of_ne_true hown
      obtain ⟨body', hbody, rfl⟩ := Option.map_eq_some_iff.mp h
      obtain ⟨hopenings, hbared⟩ := changed_updateElement id f body body' hbody
      refine ⟨?_, by rw [bared, bared, hbared]⟩
      rw [Opening.reattributeFirst_cons_of_not hanswers, hopen, hopenings]
  | .binding key value, changed, h => by
    rw [updateElement] at h
    obtain ⟨value', hvalue, rfl⟩ := Option.map_eq_some_iff.mp h
    obtain ⟨hopenings, hbared⟩ := changed_updateElement id f value value' hvalue
    refine ⟨?_, by rw [bared, bared, hbared]⟩
    rw [openings_eq_cons, openings_eq_cons]
    simpa [opening?, children, openingsAll_singleton] using hopenings
  | .document none, _, h | .string _, _, h | .number _, _, h | .boolean _, _, h
  | .identifier _, _, h | .attributeList _, _, h => nomatch h

theorem changed_updateAmong (id : Nat) (f : Option (List Attribute) → Option (List Attribute)) :
    ∀ (nodes changed : List Node), updateAmong id (reattribute f) nodes = some changed →
      openingsAll changed = Opening.reattributeFirst id f (openingsAll nodes) ∧
        baredAll changed = baredAll nodes
  | [], _, h => nomatch h
  | node :: nodes, changed, h => by
    have hfound := any_openings id (reattribute f) node
    rw [updateAmong] at h
    rw [openingsAll_cons, baredAll]
    split at h
    · rename_i node' hnode
      cases h
      obtain ⟨hopenings, hbared⟩ := changed_updateElement id f node node' hnode
      rw [hnode] at hfound
      rw [Opening.reattributeFirst_append_left hfound, openingsAll_cons, baredAll, hopenings,
        hbared]
      exact ⟨rfl, rfl⟩
    · rename_i hnode
      obtain ⟨nodes', hnodes, rfl⟩ := Option.map_eq_some_iff.mp h
      obtain ⟨hopenings, hbared⟩ := changed_updateAmong id f nodes nodes' hnodes
      rw [hnode] at hfound
      rw [Opening.reattributeFirst_append_right hfound, openingsAll_cons, baredAll, hopenings,
        hbared]
      exact ⟨rfl, rfl⟩

end

/-! ## Stamps -/

variable (tree : Node) (id : Nat) (filename : String) (names : List (Nat × String))

/-- A stamp gives its name to the first element with its number. -/
theorem changed_stamp :
    ((tree.stamp id filename).getD tree).openings =
        Opening.reattributeFirst id (named filename) tree.openings ∧
      ((tree.stamp id filename).getD tree).bared = tree.bared := by
  have hat : Opening.attributesOf id tree.openings =
      (tree.findElement id).map Element.attributes := by
    rw [← attributesAt_eq_attributesOf, attributesAt_eq]
  cases hlacks : (tree.findElement id).any Element.lacksFilename with
  | true =>
    obtain ⟨stamped, hstamped⟩ := Option.isSome_iff_exists.mp
      ((isSome_stamp tree id filename).trans hlacks)
    obtain ⟨element, hfind, hlack⟩ := (Option.any_eq_true _ _).mp hlacks
    rw [hfind, Option.map_some] at hat
    have hupdate := hstamped
    rw [stamp, if_pos hlacks] at hupdate
    obtain ⟨hopenings, hbared⟩ := changed_updateElement id _ tree stamped hupdate
    rw [hstamped, Option.getD_some]
    refine ⟨hopenings.trans (Opening.reattributeFirst_congr fun attributes hattributes => ?_),
      hbared⟩
    rw [hat] at hattributes
    cases hattributes
    exact (named_of_lacks hlack filename).symm
  | false =>
    have hnone : tree.stamp id filename = none := by
      rw [stamp, if_neg (ne_true_of_eq_false hlacks)]
    rw [hnone, Option.getD_none]
    refine ⟨Eq.symm ?_, rfl⟩
    refine (Opening.reattributeFirst_congr fun attributes hattributes => ?_).trans
      (Opening.reattributeFirst_id tree.openings)
    rw [hat] at hattributes
    obtain ⟨element, hfind, rfl⟩ := Option.map_eq_some_iff.mp hattributes
    rw [hfind, Option.any_some] at hlacks
    exact named_of_not_lacks hlacks filename

/-- Without its attribute lists a tree is what it was before some stamps. -/
theorem bared_stampAll : (tree.stampAll names).bared = tree.bared := by
  induction names generalizing tree with
  | nil => rfl
  | cons name names ih => rw [stampAll_cons, ih, (changed_stamp tree name.1 name.2).2]

/-- The elements after some stamps. -/
theorem openings_stampAll : (tree.stampAll names).openings = Opening.gain names tree.openings := by
  induction names generalizing tree with
  | nil => exact (Opening.gain_nil tree.openings).symm
  | cons name names ih =>
    rw [stampAll_cons, ih, (changed_stamp tree name.1 name.2).1, Opening.gain_cons]

/-! ## Trees that change -/

/-- Whether an attribute list is there and names no file. -/
def listLacks (attributes : Option (List Attribute)) : Bool :=
  attributes.any fun entries => !Attributes.contains entries filenameKey

theorem lacks_eq (other : Nat) : (tree.findElement other).any Element.lacksFilename =
    (tree.attributesAt other).any listLacks := by
  rw [attributesAt_eq, Option.any_map]
  rfl

theorem listLacks_named (attributes : Option (List Attribute)) :
    listLacks (named filename attributes) = false := by
  cases attributes with
  | none => rfl
  | some entries =>
    show (!Attributes.contains (if _ then _ else _) filenameKey) = false
    split
    · rename_i hcontains
      rw [hcontains]
      rfl
    · simp [Attributes.contains]

/-- After a stamp its element lacks no file name, and no other element lacks one that did not. -/
theorem lacks_stamp (other : Nat) :
    (((tree.stamp id filename).getD tree).findElement other).any Element.lacksFilename =
      if other = id then false else (tree.findElement other).any Element.lacksFilename := by
  rw [lacks_eq, attributesAt_stamp]
  split
  · rw [Option.any_map]
    cases tree.attributesAt id with
    | none => rfl
    | some attributes => exact listLacks_named filename attributes
  · exact (lacks_eq tree other).symm

theorem lacks_stampAll (other : Nat) :
    ((tree.stampAll names).findElement other).any Element.lacksFilename =
      if other ∈ names.map Prod.fst then false
      else (tree.findElement other).any Element.lacksFilename := by
  induction names generalizing tree with
  | nil => rfl
  | cons name names ih =>
    rw [stampAll_cons, ih, lacks_stamp]
    simp only [List.map_cons, List.mem_cons]
    by_cases hhere : other = name.1
    · simp [hhere]
    · simp only [hhere, if_false, false_or]

/-- Some stamp is set if the first is, or one of the others after it. -/
theorem lacksAny_cons (name : Nat × String) :
    tree.lacksAny (name :: names) = ((tree.stamp name.1 name.2).isSome ||
      ((tree.stamp name.1 name.2).getD tree).lacksAny names) := by
  have hlacks := isSome_stamp tree name.1 name.2
  rw [lacksAny, List.any_cons, ← hlacks]
  cases tree.stamp name.1 name.2 <;> rfl

/-- Whether the element with a number has an attribute list, and this list names no file. -/
def LacksName (id : Nat) : Prop :=
  ∃ entries, tree.attributesAt id = some (some entries) ∧
    ∀ entry ∈ entries, entry.key ≠ "filename"

/-- What some file names make of a tree: an element has the first name for its number, if its list
names no file, and nothing else has changed. -/
structure Stamped (stamped : Node) : Prop where
  bared : stamped.bared = tree.bared
  named : ∀ other filename, names.lookup other = some filename →
    stamped.attributesAt other = (tree.attributesAt other).map (named filename)
  kept : ∀ other, names.lookup other = none →
    stamped.attributesAt other = tree.attributesAt other

theorem lacksName_iff :
    tree.LacksName id ↔ (tree.findElement id).any Element.lacksFilename = true := by
  have hlist : ∀ entries, listLacks (some entries) = true ↔
      ∀ entry ∈ entries, entry.key ≠ filenameKey := fun entries => by
    simp [listLacks, Attributes.contains]
  rw [lacks_eq, Option.any_eq_true]
  constructor
  · rintro ⟨entries, hat, hkeys⟩
    exact ⟨some entries, hat, (hlist entries).mpr hkeys⟩
  · rintro ⟨attributes, hat, hlacks⟩
    cases attributes with
    | none => cases hlacks
    | some entries => exact ⟨entries, hat, (hlist entries).mp hlacks⟩

theorem lacksAny_iff_lacksName :
    tree.lacksAny names = true ↔ ∃ name ∈ names, tree.LacksName name.1 := by
  simp only [lacksAny, List.any_eq_true, lacksName_iff]

theorem named_named (other : String) (attributes : Option (List Attribute)) :
    named other (named filename attributes) = named filename attributes :=
  named_of_not_lacks (show Element.lacksFilename ⟨0, named filename attributes, none⟩ = false from
    listLacks_named filename attributes) other

/-- The first name for an element is the one that counts: after it, the element lacks none. -/
theorem attributesAt_stampAll (other : Nat) :
    (tree.stampAll names).attributesAt other = (tree.attributesAt other).map fun attributes =>
      (names.lookup other).elim attributes fun filename => named filename attributes := by
  induction names generalizing tree with
  | nil => exact Option.map_id'.symm
  | cons name names ih =>
    rw [stampAll_cons, ih, attributesAt_stamp]
    by_cases hhere : other = name.1
    · subst hhere
      rw [if_pos rfl, Option.map_map, List.lookup_cons_self]
      refine congrArg (Option.map · _) (funext fun attributes => ?_)
      cases names.lookup name.1 with
      | none => rfl
      | some later => exact named_named name.2 later attributes
    · rw [if_neg hhere, List.lookup_cons, beq_eq_false_iff_ne.mpr hhere]

theorem stamped_stampAll : tree.Stamped names (tree.stampAll names) where
  bared := tree.bared_stampAll names
  named other filename h := by rw [attributesAt_stampAll, h]; rfl
  kept other h := by rw [attributesAt_stampAll, h]; exact Option.map_id'

theorem stampAll_of_not_lacksAny (h : tree.lacksAny names = false) :
    tree.stampAll names = tree := by
  induction names with
  | nil => rfl
  | cons name names ih =>
    rw [lacksAny_cons, Bool.or_eq_false_iff, Option.isSome_eq_false_iff, Option.isNone_iff_eq_none]
      at h
    rw [stampAll_cons, h.1]
    rw [h.1] at h
    exact ih h.2

/-- Some stamp is set exactly if the tree changes. -/
theorem lacksAny_iff : tree.lacksAny names = true ↔ tree.stampAll names ≠ tree := by
  constructor
  · intro h hsame
    obtain ⟨name, hname, hlacks⟩ := List.any_eq_true.mp h
    have hstamped := lacks_stampAll tree names name.1
    rw [hsame, if_pos (List.mem_map_of_mem hname), hlacks] at hstamped
    cases hstamped
  · intro hchanged
    by_contra h
    exact hchanged (stampAll_of_not_lacksAny tree names (eq_false_of_ne_true h))

end Node

end ChatMarkup
