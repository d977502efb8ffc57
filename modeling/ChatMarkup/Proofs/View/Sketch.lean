import ChatMarkup.Proofs.Source.Numbering
import ChatMarkup.Proofs.Source.WrittenAttributes
import ChatMarkup.Proofs.View.Blocks
import ChatMarkup.View.Sketch

/-!
# The sketch of a document

Every document of the grammar can be shown. The blocks that are met on the way are those of the
view, in their order, and each of them is a code element of the walk, so that the number of a block
leads back to its element.

* `sketch_of_document`: the sketch of a document, block by block;
* `findElement_of_codeSource`: the element that a block of a numbered tree came from.
-/

namespace ChatMarkup

open Source

/-- The code block that a node is. -/
def Node.codeSource? : Node → Option CodeSource
  | element .code id attributes body => (View.codeSource id attributes body).toOption
  | _ => none

namespace View

/-- A sequence that is made has made its first part. -/
theorem result_bind_eq_ok {γ δ : Type} {x : Sketching γ} {f : γ → Sketching δ} {b : δ}
    (h : (x >>= f).result = .ok b) : ∃ a, x.result = .ok a ∧ (f a).result = .ok b := by
  rw [Traced.result_bind] at h
  cases hx : x.result with
  | error e =>
    rw [hx] at h
    cases h
  | ok a =>
    rw [hx] at h
    exact ⟨a, rfl, h⟩

/-- A sketch that is made. The blocks in it are the ones that were met, each of a code element among
the nodes. -/
def Shows {α : Type} (blocks : α → List CodeSource) (nodes : List Node) (x : Sketching α) :
    Prop :=
  ∃ shown, x.result = .ok shown ∧ x.seen.filterMap Sighting.block? = blocks shown ∧
    (blocks shown).Sublist (nodes.filterMap Node.codeSource?)

theorem shows_pure {α : Type} {blocks : α → List CodeSource} {shown : α} (h : blocks shown = [])
    (nodes : List Node) : Shows blocks nodes (pure shown) :=
  ⟨shown, rfl, h.symm, h ▸ List.nil_sublist _⟩

/-- What is shown of a sketch without any more blocks. -/
theorem Shows.map {α β : Type} {blocks : α → List CodeSource} {blocks' : β → List CodeSource}
    {nodes : List Node} {x : Sketching α} (h : Shows blocks nodes x) {f : α → β}
    (hf : ∀ shown, blocks' (f shown) = blocks shown) :
    Shows blocks' nodes (x >>= fun shown => pure (f shown)) := by
  obtain ⟨shown, hresult, hseen, hsub⟩ := h
  refine ⟨f shown, ?_, ?_, ?_⟩
  · rw [Traced.result_bind_of_ok hresult]
    rfl
  · rw [Traced.seen_bind_of_ok hresult, Traced.seen_pure, List.append_nil, hseen, hf]
  · rwa [hf]

/-- Meeting a node shows no block. -/
theorem Shows.see {α : Type} {blocks : α → List CodeSource} {nodes : List Node} {x : Sketching α}
    (h : Shows blocks nodes x) (node : Node) (tight : Bool) :
    Shows blocks nodes (Traced.see (.node node tight) >>= fun _ => x) := by
  obtain ⟨shown, hresult, hseen, hsub⟩ := h
  refine ⟨shown, ?_, ?_, hsub⟩
  · rw [Traced.result_bind_of_ok (Traced.result_see _), hresult]
  · rw [Traced.seen_bind_of_ok (Traced.result_see _), Traced.seen_see]
    exact hseen

theorem Shows.mono {α : Type} {blocks : α → List CodeSource} {nodes more : List Node}
    {x : Sketching α} (h : Shows blocks nodes x) (hnodes : nodes.Sublist more) :
    Shows blocks more x := by
  obtain ⟨shown, hresult, hseen, hsub⟩ := h
  exact ⟨shown, hresult, hseen, hsub.trans (hnodes.filterMap _)⟩

/-! ## Code elements -/

theorem attributeSource_eq_ok {entries : List Attribute} (h : AreEntries (some entries)) :
    ∃ source, attributeSource entries = .ok source := by
  rw [attributeSource, writeHead_eq "" h]
  exact ⟨_, rfl⟩

theorem codeSource_eq_ok {attributes : Option (List Attribute)} (h : AreEntries attributes)
    (id : Nat) (body : Option Node) : ∃ source, codeSource id attributes body = .ok source := by
  cases attributes with
  | none => exact ⟨_, rfl⟩
  | some entries =>
    obtain ⟨source, hsource⟩ := attributeSource_eq_ok h
    rw [codeSource, hsource]
    exact ⟨_, rfl⟩

theorem shows_code {attributes : Option (List Attribute)} (h : AreEntries attributes) (id : Nat)
    (body : Option Node) (nodes : List Node) :
    Shows blocks (.element .code id attributes body :: nodes)
      (sketchCode (codeSource id attributes body)) := by
  obtain ⟨source, hsource⟩ := codeSource_eq_ok h id body
  refine ⟨.code source, by rw [hsource]; rfl, by rw [hsource]; rfl, ?_⟩
  have hnode : Node.codeSource? (.element .code id attributes body) = some source := by
    rw [Node.codeSource?, hsource]
    rfl
  rw [List.filterMap_cons_some hnode, blocks_code]
  exact (List.nil_sublist _).cons_cons source

/-! ## Items -/

theorem shows_items {items : List Node} (tight : Bool)
    (h : ∀ item ∈ items, Shows blocks item.walk (sketchContent tight item)) :
    Shows (List.flatMap blocks) (Node.walkAll items) (sketchItems tight items) := by
  induction items with
  | nil =>
    rw [sketchItems]
    exact shows_pure rfl _
  | cons item items ih =>
    rw [List.forall_mem_cons] at h
    obtain ⟨first, hfirst, hseen, hsub⟩ := h.1
    obtain ⟨others, hothers, hseens, hsubs⟩ := ih h.2
    rw [sketchItems]
    refine Shows.see ⟨first :: others, ?_, ?_, ?_⟩ item tight
    · rw [Traced.result_bind_of_ok hfirst, Traced.result_bind_of_ok hothers]
      rfl
    · rw [Traced.seen_bind_of_ok hfirst, Traced.seen_bind_of_ok hothers, Traced.seen_pure,
        List.append_nil, List.filterMap_append, hseen, hseens, List.flatMap_cons]
    · rw [Node.walkAll, List.filterMap_append, List.flatMap_cons]
      exact hsub.append hsubs

/-- The body of an element shows what its only node shows. -/
theorem shows_body {body : Node} {tight : Bool}
    (h : Shows blocks body.walk (sketchContent tight body)) :
    Shows (List.flatMap blocks) body.walk (sketchBody tight (some body)) := by
  rw [sketchBody]
  exact (h.map blocks_parts).see body tight

theorem shows_block {items : List Node} (tight : Bool)
    (h : ∀ item ∈ items, Shows blocks item.walk (sketchContent tight item)) :
    Shows blocks (Node.block items).walk (sketchContent tight (.block items)) := by
  rw [sketchContent, Node.walk]
  refine ((shows_items tight h).map fun children => ?_).mono (List.sublist_cons_self _ _)
  rw [blocks_fragment]
  split
  · rfl
  · exact flatMap_intersperse rfl children

theorem shows_element {tag : Tag} {id : Nat} {attributes : Option (List Attribute)} {body : Node}
    (h : AreEntries attributes)
    (hbody : ∀ tight, Shows blocks body.walk (sketchContent tight body)) (tight : Bool) :
    Shows blocks (Node.element tag id attributes (some body)).walk
      (sketchContent tight (.element tag id attributes (some body))) := by
  have hwalk : body.walk.Sublist (Node.element tag id attributes (some body)).walk := by
    rw [Node.walk]
    exact List.sublist_cons_self _ _
  cases tag with
  | button =>
    rw [sketchContent]
    exact ((shows_body (hbody _)).map fun label => blocks_button _ _ label).mono hwalk
  | link =>
    rw [sketchContent]
    exact ((shows_body (hbody _)).map fun children => blocks_link _ children).mono hwalk
  | input | image =>
    rw [sketchContent]
    exact shows_pure rfl _
  | code =>
    rw [sketchContent, Node.walk]
    exact shows_code h id (some body) body.walk
  | custom name =>
    rw [sketchContent]
    cases Panel.ofName? name with
    | some kind =>
      exact ((shows_body (hbody _)).map fun children => blocks_panel kind children).mono hwalk
    | none => exact shows_pure rfl _
  | _ =>
    refine Shows.mono ?_ hwalk
    rw [sketchContent]
    · exact (shows_body (hbody _)).map fun children => blocks_wrapped _ children
    all_goals simp

theorem shows_of_isItem {room : Nat} {item : Node} (h : IsItem room item) :
    ∀ tight, Shows blocks item.walk (sketchContent tight item) := by
  induction h with
  | string | number =>
    intro tight
    rw [sketchContent]
    exact shows_pure rfl _
  | braced _ hattributes _ ih =>
    exact shows_element hattributes fun tight => shows_block tight fun item hitem =>
      ih item hitem tight
  | bare _ hattributes _ =>
    refine shows_element hattributes fun tight => ?_
    rw [sketchContent]
    exact shows_pure rfl _

/-! ## Documents -/

theorem sketch_of_document {tree : Node} (h : IsDocument tree) :
    Shows blocks tree.walk (sketch tree) := by
  obtain ⟨items, rfl, hitems⟩ := h
  have helements : Shows blocks (Node.elements items).walk
      (sketchContent false (.elements items)) := by
    rw [sketchContent, Node.walk]
    exact ((shows_items false fun item hitem => shows_of_isItem (hitems item hitem) false).map
      fun children => blocks_fragment children).mono (List.sublist_cons_self _ _)
  rw [sketch, Node.ofItems, Node.walk, sketchContent]
  refine Shows.see (Shows.mono ?_ (List.sublist_cons_self _ _)) _ _
  exact (shows_body helements).map fun children => blocks_wrapped _ children

end View

/-- The code blocks that are met in a tree. -/
def Node.codeSources (tree : Node) : List CodeSource :=
  (View.sketch tree).seen.filterMap Sighting.block?

theorem codeSources_sublist {tree : Node} (h : IsDocument tree) :
    tree.codeSources.Sublist (tree.walk.filterMap Node.codeSource?) := by
  obtain ⟨shown, -, hseen, hsub⟩ := View.sketch_of_document h
  rw [Node.codeSources, hseen]
  exact hsub

/-! ## Back to the elements -/

/-- A block has the number of its element, and asks to be run if the attributes of the element say
so. -/
theorem element?_of_codeSource? {node : Node} {source : CodeSource}
    (h : node.codeSource? = some source) :
    ∃ element, node.element? = some element ∧ element.id = source.node ∧
      source.asksToRun = (element.scalar? "run").any Scalar.isTrue := by
  match node, h with
  | .element .code id none body, h =>
    cases h
    exact ⟨⟨id, none, body⟩, rfl, rfl, rfl⟩
  | .element .code id (some attributes) body, h =>
    rw [Node.codeSource?, View.codeSource] at h
    cases hsource : attributeSource attributes with
    | error _ =>
      rw [hsource] at h
      cases h
    | ok text =>
      rw [hsource] at h
      cases h
      exact ⟨⟨id, some attributes, body⟩, rfl, rfl, rfl⟩

/-- The number of a block leads back to its element. -/
theorem findElement_of_codeSource {tree : Node} (h : IsDocument tree) (hnodup : tree.ids.Nodup)
    {source : CodeSource} (hsource : source ∈ tree.codeSources) :
    ∃ element, tree.findElement source.node = some element ∧
      source.asksToRun = (element.scalar? "run").any Scalar.isTrue := by
  obtain ⟨node, hmem, hnode⟩ := List.mem_filterMap.mp ((codeSources_sublist h).subset hsource)
  obtain ⟨element, helement, hid, hasks⟩ := element?_of_codeSource? hnode
  exact ⟨element, hid ▸ Node.findElement_of_mem hnodup hmem helement, hasks⟩

end ChatMarkup
