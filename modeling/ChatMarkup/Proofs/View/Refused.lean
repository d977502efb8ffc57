import ChatMarkup.Proofs.Source.Refusal
import ChatMarkup.Proofs.Tree.Standing
import ChatMarkup.Proofs.View.Rendering

/-!
# Which documents fail

A document that was read can always be shown. Writing it ends at a malformed code element, unless
that is in an image: of malformed elements the first counts, and it is the one that the error tells
of.

* `IsDocument.head?_refusals`: the first refusal of a document is that of its first malformed code
  element outside of images, by induction over the grammar;
* `failures_of_read`: what is read can be shown, and is written unless there is such an element.
-/

namespace ChatMarkup

open Source

namespace Node

/-- The body of an element. -/
def body? : Node → Option Node
  | element _ _ _ body => body
  | _ => none

/-- Whether the node is an image. -/
def isImage : Node → Bool
  | element .image _ _ _ => true
  | _ => false

/-- Whether the node is a code element whose body is not a block with one string. -/
def isMalformed : Node → Bool
  | element .code _ _ (some (block [string _])) => false
  | element .code _ _ _ => true
  | _ => false

/-- What stands where a block with one string is wanted. -/
def bodyName : Option Node → String
  | some (block [item]) => item.tagName
  | some (block items) => "Block with " ++ toString items.length ++ " children"
  | some body => body.tagName
  | none => "nothing"

theorem refusal?_codeText (id : Nat) (attributes : Option (List Attribute)) (body : Option Node) :
    refusal? (codeText body) =
      if (element .code id attributes body).isMalformed then some (.shape (bodyName body))
      else none := by
  rw [codeText.eq_def]
  split <;> simp_all [isMalformed, refusal?, bodyName]

theorem eq_string_of_isMalformed {id : Nat} {attributes : Option (List Attribute)}
    {items : List Node}
    (h : (element .code id attributes (some (block items))).isMalformed = false) :
    ∃ value, items = [string value] := by
  rw [isMalformed.eq_def] at h
  split at h <;> simp_all

theorem isMalformed_of_ne_code {tag : Tag} (h : tag ≠ .code) (id : Nat)
    (attributes : Option (List Attribute)) (body : Option Node) :
    (element tag id attributes body).isMalformed = false := by
  cases tag <;> first | rfl | exact absurd rfl h

theorem isImage_of_ne_image {tag : Tag} (h : tag ≠ .image) (id : Nat)
    (attributes : Option (List Attribute)) (body : Option Node) :
    (element tag id attributes body).isImage = false := by
  cases tag <;> first | rfl | exact absurd rfl h

/-- The first malformed code element of a tree outside of its images. -/
def firstMalformed? (above : List Node) (node : Node) : Option Standing :=
  (node.cutBelow isImage above).find? fun standing => standing.node.isMalformed

theorem firstMalformed?_image {node : Node} {above : List Node} (habove : above.any isImage = false)
    (h : node.isImage = true) (hnode : node.isMalformed = false) :
    node.firstMalformed? above = none := by
  rw [firstMalformed?, cutBelow_eq_cons habove, if_pos h, List.find?_cons_of_neg (by simp [hnode])]
  rfl

/-- Unless the node itself is malformed, the first malformed code element is the first one of its
children. -/
theorem firstMalformed?_eq {node : Node} {above : List Node} (habove : above.any isImage = false)
    (h : node.isImage = false) :
    node.firstMalformed? above =
      if node.isMalformed then some ⟨node, above⟩
      else node.children.findSome? (firstMalformed? (node :: above)) := by
  rw [firstMalformed?, cutBelow_eq_cons habove, h, List.find?_cons]
  cases node.isMalformed with
  | true => rfl
  | false => exact List.find?_flatMap

theorem firstMalformed?_element {tag : Tag} {id : Nat} {attributes : Option (List Attribute)}
    {body : Node} {above : List Node} (habove : above.any isImage = false) (himage : tag ≠ .image) :
    (element tag id attributes (some body)).firstMalformed? above =
      if (element tag id attributes (some body)).isMalformed then
        some ⟨element tag id attributes (some body), above⟩
      else body.firstMalformed? (element tag id attributes (some body) :: above) := by
  rw [firstMalformed?_eq habove (isImage_of_ne_image himage _ _ _), children, Option.toList_some,
    List.findSome?_singleton]

end Node

namespace Source

/-- The error at a node where writing ends. -/
def shapeError (standing : Standing) : MarkupError :=
  .shape (Node.bodyName standing.node.body?)

theorem head?_refusalsAll {items : List Node} {above : List Node}
    (h : ∀ item ∈ items, item.refusals.head? = (item.firstMalformed? above).map shapeError) :
    (Node.refusalsAll items).head? =
      (items.findSome? (Node.firstMalformed? above)).map shapeError := by
  induction items with
  | nil => rfl
  | cons item items ih =>
    rw [List.forall_mem_cons] at h
    rw [Node.refusalsAll, List.head?_append, List.findSome?_cons, h.1, ih h.2]
    cases item.firstMalformed? above <;> rfl

/-- The first refusal of an item is that of its first malformed code element outside of images. -/
theorem IsItem.head?_refusals {room : Nat} {item : Node} (h : IsItem room item) :
    ∀ above : List Node, above.any Node.isImage = false →
      item.refusals.head? = (item.firstMalformed? above).map shapeError := by
  induction h with
  | string | number =>
    intro above habove
    rw [Node.firstMalformed?_eq habove rfl]
    rfl
  | @braced room id tag attributes items _ _ _ ih =>
    intro above habove
    by_cases himage : tag = .image
    · subst himage
      rw [Node.firstMalformed?_image habove rfl rfl]
      rfl
    have hinner := Node.any_above_cons
      (Node.isImage_of_ne_image himage id attributes (some (.block items))) habove
    have hitems := head?_refusalsAll fun item hitem =>
      ih item hitem (.block items :: .element tag id attributes (some (.block items)) :: above)
        (by rwa [List.any_cons])
    rw [Node.firstMalformed?_element habove himage, Node.firstMalformed?_eq hinner rfl,
      Node.children]
    by_cases hcode : tag = .code
    · subst hcode
      -- The items of a code element are not written as such, but then there is one string only,
      -- and nothing malformed below it.
      rw [Node.refusals, Node.refusal?_codeText id attributes]
      split
      · rfl
      · rename_i hsole
        obtain ⟨value, rfl⟩ := Node.eq_string_of_isMalformed (eq_false_of_ne_true hsole)
        rw [List.findSome?_singleton, Node.firstMalformed?_eq (by rwa [List.any_cons]) rfl]
        rfl
    · rw [Node.refusals_element himage hcode, Node.refusalsOf, Node.refusals, hitems,
        Node.isMalformed_of_ne_code hcode]
      rfl
  | @bare room id tag attributes value _ _ hbare =>
    intro above habove
    have himage := Tag.ne_image_of_takesBareString hbare
    have hcode := Tag.ne_code_of_takesBareString hbare
    have hinner := Node.any_above_cons
      (Node.isImage_of_ne_image himage id attributes (some (.string value))) habove
    rw [Node.firstMalformed?_element habove himage, Node.firstMalformed?_eq hinner rfl,
      Node.refusals_element himage hcode, Node.isMalformed_of_ne_code hcode]
    rfl

/-- The first refusal of a document is that of its first malformed code element outside of
images. -/
theorem IsDocument.head?_refusals {tree : Node} (h : IsDocument tree) :
    tree.refusals.head? = (tree.firstMalformed? []).map shapeError := by
  obtain ⟨items, rfl, hitems⟩ := h
  have habove : [Node.elements items, .ofItems items].any Node.isImage = false := rfl
  have hroot : (Node.ofItems items).firstMalformed? [] =
      items.findSome? (Node.firstMalformed? [.elements items, .ofItems items]) := by
    rw [Node.firstMalformed?_eq rfl rfl, Node.ofItems, Node.children, Option.toList_some,
      List.findSome?_singleton, Node.firstMalformed?_eq rfl rfl]
    rfl
  rw [hroot, Node.ofItems, Node.refusals, Node.refusalsOf, Node.refusals]
  exact head?_refusalsAll fun item hitem => (hitems item hitem).head?_refusals _ habove

end Source

/-- Whether writing ends at this node: a malformed code element outside of images. -/
def Standing.isRefused (standing : Standing) : Bool :=
  !standing.isBelow Node.isImage && standing.node.isMalformed

/-- What is read is shown, in every mode and with every table. It is written unless one of its code
elements, outside of images, has a body that is not one string; the error says what the body of the
first of these is. -/
theorem failures_of_read {source : String} {tree : Node} (h : Source.read source = .ok tree) :
    (∀ mode table, ∃ view, (Rendering.render mode table tree).view = .ok view) ∧
      ((∃ e, Source.write tree = .error e) ↔
        ∃ standing ∈ tree.standings [],
          standing.isBelow Node.isImage = false ∧ standing.node.isMalformed = true) ∧
      ∀ e, Source.write tree = .error e →
        ∃ standing, (tree.standings []).find? Standing.isRefused = some standing ∧
          e = .shape (Node.bodyName standing.node.body?) := by
  have hdocument := isDocument_of_read h
  have hrefusal : refusal? (Source.write tree) =
      ((tree.standings []).find? Standing.isRefused).map shapeError := by
    rw [refusal?_write hdocument, hdocument.head?_refusals, Node.firstMalformed?, Node.cutBelow,
      List.find?_filter]
    congr 2
    funext standing
    simp [Standing.isRefused]
  refine ⟨fun mode table => ?_, ?_, fun e he => ?_⟩
  · obtain ⟨view, hview, -⟩ := Rendering.render_of_document hdocument mode table
    exact ⟨view, hview⟩
  · have herror : (∃ e, Source.write tree = .error e) ↔
        (refusal? (Source.write tree)).isSome = true := by
      cases Source.write tree <;> simp [refusal?]
    rw [herror, hrefusal, Option.isSome_map, List.find?_isSome]
    simp [Standing.isRefused]
  · rw [he, refusal?] at hrefusal
    obtain ⟨standing, hfirst, rfl⟩ := Option.map_eq_some_iff.mp hrefusal.symm
    exact ⟨standing, hfirst, rfl⟩

/-- A malformed code element in an image, and two of them outside of it. -/
def refusedSource : String :=
  "img \x7b code \x7b\x7d \x7d p \x7b code \x7b p \x7b\x7d \x7d code \x7b\x7d \x7d"

theorem failures_of_read_refusedSource :
    ∃ tree view standing, Source.read refusedSource = .ok tree ∧
      (Rendering.render .editor .empty tree).view = .ok view ∧
      (tree.standings []).find? Standing.isRefused = some standing ∧
      standing.above.map Node.tagName = ["Block", "p", "ElementList", "Document"] ∧
      Source.write tree = .error (.shape "p") := by
  have hfacts : (Source.read refusedSource).toOption.any (fun tree =>
      (Source.write tree).toOption.isNone ∧
      ((tree.standings []).find? Standing.isRefused).map (fun standing =>
        (Node.bodyName standing.node.body?, standing.above.map Node.tagName)) =
          some ("p", ["Block", "p", "ElementList", "Document"])) = true := by
    decide +kernel
  obtain ⟨tree, hread, hfacts⟩ := (Option.any_eq_true _ _).mp hfacts
  replace hread := eq_ok_of_toOption hread
  obtain ⟨hunwritten, hfirst⟩ := of_decide_eq_true hfacts
  obtain ⟨hshown, -, herror⟩ := failures_of_read hread
  obtain ⟨view, hview⟩ := hshown .editor .empty
  cases hwrite : Source.write tree with
  | ok text =>
    rw [hwrite] at hunwritten
    cases hunwritten
  | error e =>
    obtain ⟨standing, hstanding, rfl⟩ := herror e hwrite
    rw [hstanding, Option.map_some, Option.some.injEq, Prod.mk.injEq] at hfirst
    exact ⟨tree, view, standing, hread, hview, hstanding, hfirst.2, hfirst.1 ▸ hwrite⟩

end ChatMarkup
