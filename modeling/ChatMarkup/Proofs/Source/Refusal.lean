import ChatMarkup.Proofs.Source.RoundTrip
import ChatMarkup.Proofs.Tree.Update

/-!
# Which documents cannot be written

Writing comes to the code elements of a document outside its images, and stops at the first of them
whose body is not one string. Nothing else is refused, and what is stamped on an element does not
count.

* `refusal?_write`: a document is refused for the first of its refusals;
* `refusals_stamp`: a stamp leaves the refusals of a tree as they are.
-/

namespace ChatMarkup

namespace Source

/-- The error for which something could not be done. -/
def refusal? {α : Type} : Except MarkupError α → Option MarkupError
  | .ok _ => none
  | .error e => some e

theorem refusal?_map {α β : Type} (f : α → β) (result : Except MarkupError α) :
    refusal? (result.map f) = refusal? result := by
  cases result <;> rfl

end Source

namespace Node

open Source

mutual

/-- What writing refuses of a tree: the bodies of its code elements that are not one string. Writing
passes over images, and does not look for elements in the body of a code element. -/
def refusals : Node → List MarkupError
  | document content => refusalsOf content
  | elements items => refusalsAll items
  | block items => refusalsAll items
  | element tag _ _ body =>
    match tag with
    | .image => []
    | .code => (refusal? (codeText body)).toList
    | _ => refusalsOf body
  | _ => []

def refusalsAll : List Node → List MarkupError
  | [] => []
  | item :: items => refusals item ++ refusalsAll items

def refusalsOf : Option Node → List MarkupError
  | none => []
  | some body => refusals body

end

theorem refusals_element {tag : Tag} (himage : tag ≠ .image) (hcode : tag ≠ .code) (id : Nat)
    (attributes : Option (List Attribute)) (body : Option Node) :
    (element tag id attributes body).refusals = refusalsOf body := by
  rw [refusals]
  · exact himage
  · exact hcode

theorem refusalsAll_append (xs ys : List Node) :
    refusalsAll (xs ++ ys) = refusalsAll xs ++ refusalsAll ys := by
  induction xs with
  | nil => rfl
  | cons x xs ih => rw [List.cons_append, refusalsAll, refusalsAll, ih, List.append_assoc]

end Node

/-! ## Writing -/

namespace Source

theorem refusal?_writeItems {items : List Node}
    (h : ∀ item ∈ items, refusal? (writeContent item).result = item.refusals.head?) :
    refusal? (writeItems items).result = (Node.refusalsAll items).head? := by
  induction items with
  | nil => simp [writeItems, Node.refusalsAll, refusal?]
  | cons item items ih =>
    rw [List.forall_mem_cons] at h
    have hrest := ih h.2
    rw [writeItems_cons, Node.refusalsAll, List.head?_append, ← h.1, ← hrest]
    cases (writeContent item).result with
    | error e => rfl
    | ok first => exact refusal?_map _ _

/-- An item of the grammar is refused for the first of its refusals. -/
theorem IsItem.refusal? {room : Nat} {item : Node} (h : IsItem room item) :
    Source.refusal? (writeContent item).result = item.refusals.head? := by
  induction h with
  | string | number => simp [writeContent, Node.refusals, Source.refusal?]
  | @braced room id tag attributes items _ hattributes _ ih =>
    by_cases himage : tag = .image
    · subst himage
      rw [writeContent_image hattributes]
      simp [Node.refusals, Source.refusal?]
    by_cases hcode : tag = .code
    · subst hcode
      rw [writeContent_code hattributes, refusal?_map]
      simp [Node.refusals]
    rw [writeContent_braced hattributes himage hcode, refusal?_map,
      Node.refusals_element himage hcode, Node.refusalsOf, Node.refusals]
    exact refusal?_writeItems ih
  | @bare room id tag attributes value _ hattributes hbare =>
    rw [writeContent_bare hattributes hbare, Node.refusals_element]
    · simp [Node.refusalsOf, Node.refusals, Source.refusal?]
    · exact Tag.ne_image_of_takesBareString hbare
    · exact Tag.ne_code_of_takesBareString hbare

/-- A document is refused for the first of its refusals, and for nothing else. -/
theorem refusal?_write {tree : Node} (h : IsDocument tree) :
    refusal? (write tree) = tree.refusals.head? := by
  obtain ⟨items, rfl, hitems⟩ := h
  rw [write_ofItems, Node.ofItems, Node.refusals, Node.refusalsOf, Node.refusals]
  exact refusal?_writeItems fun item hitem => (hitems item hitem).refusal?

/-- What can be written is refused for nothing. -/
theorem refusals_of_write {tree : Node} {source : String} (h : IsDocument tree)
    (hwrite : write tree = .ok source) : tree.refusals = [] := by
  have hnone := refusal?_write h
  rw [hwrite] at hnone
  exact List.head?_eq_none_iff.mp hnone.symm

end Source

/-! ## Stamps -/

namespace Node

open Source

/-- A change that leaves the body of every element as it is. -/
def KeepsBody (change : Element → Element) : Prop :=
  ∀ element, (change element).body = element.body

theorem refusals_of_body (tag : Tag) (id other : Nat) (attributes : Option (List Attribute))
    (others : Option (List Attribute)) (body : Option Node) :
    (element tag id attributes body).refusals = (element tag other others body).refusals := by
  cases tag <;> simp only [refusals]

theorem length_updateAmong {id : Nat} {change : Element → Element} {nodes changed : List Node}
    (h : updateAmong id change nodes = some changed) : changed.length = nodes.length := by
  induction nodes generalizing changed with
  | nil => cases h
  | cons node nodes ih =>
    rw [updateAmong] at h
    split at h
    · cases h
      rfl
    · obtain ⟨others, hothers, rfl⟩ := Option.map_eq_some_iff.mp h
      simp [ih hothers]

/-- A node in which an element changes keeps its kind, and no string is of that kind. -/
theorem kind_updateElement {id : Nat} {change : Element → Element} {node changed : Node}
    (h : node.updateElement id change = some changed) :
    changed.tagName = node.tagName ∧ node.stringValue? = none ∧ changed.stringValue? = none := by
  cases node with
  | document content =>
    cases content with
    | none => cases h
    | some content =>
      obtain ⟨_, _, rfl⟩ := Option.map_eq_some_iff.mp h
      exact ⟨rfl, rfl, rfl⟩
  | elements items | block items | binding key value =>
    obtain ⟨_, _, rfl⟩ := Option.map_eq_some_iff.mp h
    exact ⟨rfl, rfl, rfl⟩
  | element tag own attributes body =>
    cases body with
    | none =>
      rw [updateElement] at h
      split at h <;> cases h
      exact ⟨rfl, rfl, rfl⟩
    | some body =>
      rw [updateElement] at h
      split at h
      · cases h
        exact ⟨rfl, rfl, rfl⟩
      · obtain ⟨_, _, rfl⟩ := Option.map_eq_some_iff.mp h
        exact ⟨rfl, rfl, rfl⟩
  | _ => cases h

theorem codeText_block_singleton {item : Node} (h : item.stringValue? = none) :
    codeText (some (.block [item])) = .error (.shape item.tagName) := by
  cases item with
  | string value => cases h
  | _ => rfl

theorem codeText_of_not_block {body : Node} (h : ∀ items, body ≠ .block items) :
    codeText (some body) = .error (.shape body.tagName) := by
  cases body with
  | block items => exact absurd rfl (h items)
  | _ => rfl

theorem not_block_updateElement {id : Nat} {change : Element → Element} {node changed : Node}
    (h : node.updateElement id change = some changed) (hnode : ∀ items, node ≠ .block items) :
    ∀ items, changed ≠ .block items := by
  rintro items rfl
  cases node with
  | document content => cases content <;> simp [updateElement] at h
  | element tag own attributes body =>
    cases body <;> simp only [updateElement] at h <;> split at h <;> simp at h
  | block others => exact hnode others rfl
  | _ => simp [updateElement] at h

/-- A body in which an element changes is refused as before: it was not one string, and is none. -/
theorem refusal?_codeText_updateElement {id : Nat} {change : Element → Element} {body changed : Node}
    (h : body.updateElement id change = some changed) :
    refusal? (codeText (some changed)) = refusal? (codeText (some body)) := by
  by_cases hblock : ∃ items, body = .block items
  · obtain ⟨items, rfl⟩ := hblock
    obtain ⟨items', hitems, rfl⟩ := Option.map_eq_some_iff.mp h
    have hlength := length_updateAmong hitems
    match items, items', hlength with
    | [], _, _ => cases hitems
    | [item], [item'], _ =>
      rw [updateAmong] at hitems
      split at hitems
      · rename_i found hfound
        cases hitems
        obtain ⟨hname, hbefore, hafter⟩ := kind_updateElement hfound
        rw [codeText_block_singleton hbefore, codeText_block_singleton hafter, hname]
      · cases hitems
    | _ :: _ :: _, _ :: _ :: _, hlength =>
      simp only [codeText, hlength]
  · have hbefore : ∀ items, body ≠ .block items := fun items heq => hblock ⟨items, heq⟩
    rw [codeText_of_not_block hbefore, codeText_of_not_block (not_block_updateElement h hbefore),
      (kind_updateElement h).1]

mutual

theorem refusals_updateElement {id : Nat} {change : Element → Element} (hchange : KeepsBody change) :
    ∀ (tree changed : Node), tree.updateElement id change = some changed →
      changed.refusals = tree.refusals
  | .document (some content), changed, h => by
    rw [updateElement] at h
    obtain ⟨content', hcontent, rfl⟩ := Option.map_eq_some_iff.mp h
    rw [refusals, refusals]
    exact refusals_updateElement hchange content content' hcontent
  | .elements items, changed, h | .block items, changed, h => by
    rw [updateElement] at h
    obtain ⟨items', hitems, rfl⟩ := Option.map_eq_some_iff.mp h
    rw [refusals, refusals]
    exact refusals_updateAmong hchange items items' hitems
  | .element tag own attributes none, changed, h => by
    rw [updateElement] at h
    split at h
    · cases h
      rw [hchange]
      exact refusals_of_body ..
    · cases h
  | .element tag own attributes (some body), changed, h => by
    rw [updateElement] at h
    split at h
    · cases h
      rw [hchange]
      exact refusals_of_body ..
    · obtain ⟨body', hbody, rfl⟩ := Option.map_eq_some_iff.mp h
      by_cases himage : tag = .image
      · rw [himage, refusals, refusals]
      by_cases hcode : tag = .code
      · rw [hcode, refusals, refusals, refusal?_codeText_updateElement hbody]
      rw [refusals_element himage hcode, refusals_element himage hcode]
      exact refusals_updateElement hchange body body' hbody
  | .binding key value, changed, h => by
    rw [updateElement] at h
    obtain ⟨value', -, rfl⟩ := Option.map_eq_some_iff.mp h
    rw [refusals, refusals] <;> simp
  | .document none, _, h | .string _, _, h | .number _, _, h | .boolean _, _, h
  | .identifier _, _, h | .attributeList _, _, h => nomatch h

theorem refusals_updateAmong {id : Nat} {change : Element → Element} (hchange : KeepsBody change) :
    ∀ (nodes changed : List Node), updateAmong id change nodes = some changed →
      refusalsAll changed = refusalsAll nodes
  | [], _, h => nomatch h
  | node :: nodes, changed, h => by
    rw [updateAmong] at h
    split at h
    · rename_i node' hnode
      cases h
      rw [refusalsAll, refusalsAll, refusals_updateElement hchange node node' hnode]
    · obtain ⟨nodes', hnodes, rfl⟩ := Option.map_eq_some_iff.mp h
      rw [refusalsAll, refusalsAll, refusals_updateAmong hchange nodes nodes' hnodes]

end

/-- A stamp leaves the refusals of a tree as they are. -/
theorem refusals_stamp (tree : Node) (id : Nat) (filename : String) :
    ((tree.stamp id filename).getD tree).refusals = tree.refusals := by
  cases h : tree.stamp id filename with
  | none => rfl
  | some stamped =>
    rw [stamp] at h
    split at h
    · have hkeeps : KeepsBody fun element => element.withFilename filename := fun _ => rfl
      exact refusals_updateElement hkeeps tree stamped h
    · cases h

end Node

end ChatMarkup
