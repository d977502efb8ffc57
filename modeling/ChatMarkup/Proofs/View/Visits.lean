import ChatMarkup.Proofs.Source.RoundTrip
import ChatMarkup.Proofs.Tree.Standing
import ChatMarkup.Proofs.View.Shown
import ChatMarkup.View.Rendering

/-!
# What showing and writing meet

Showing a document and writing it go through its tree, each in the order of the walk and each with
bodies that it does not go into. Which nodes they meet is then a matter of what each node is below.

* `metNodes_sketch`: the nodes met by showing, each with whether it is set tight;
* `seen_writeTraced`: the nodes met by writing, each with the values met behind it;
* `read_meets`: both, for what was read.
-/

namespace ChatMarkup

open Source

/-! ## What showing meets -/

namespace Node

/-- Whether the element sets what is below it tight. -/
def isNoSpace : Node → Bool
  | element .noSpace _ _ _ => true
  | _ => false

/-- Whether nothing is shown of what is below the element as such. -/
def hidesBody : Node → Bool
  | element .input _ _ _ | element .image _ _ _ | element .code _ _ _ => true
  | element (.custom name) _ _ _ => name ≠ "reason" && name ≠ "answer"
  | _ => false

theorem hidesBody_custom (name : String) (id : Nat) (attributes : Option (List Attribute))
    (body : Option Node) :
    (element (.custom name) id attributes body).hidesBody = (Panel.ofName? name).isNone := by
  rw [hidesBody, Panel.ofName?.eq_def]
  split
  · rfl
  · rfl
  · rename_i hreason hanswer
    simpa using ⟨hreason, hanswer⟩

end Node

namespace View

/-- The nodes that a sketch meets, each with whether it is set tight. -/
def metNodes {α : Type} (x : Sketching α) : List (Node × Bool) :=
  x.seen.filterMap Sighting.node?

theorem metNodes_map {α β : Type} (x : Sketching α) (f : α → β) :
    metNodes (x >>= fun a => pure (f a)) = metNodes x := by
  rw [metNodes, Traced.seen_bind_pure, metNodes]

theorem metNodes_see {α : Type} (node : Node) (tight : Bool) (x : Sketching α) :
    metNodes (Traced.see (.node node tight) >>= fun _ => x) = (node, tight) :: metNodes x := by
  rw [metNodes, Traced.seen_see_bind]
  rfl

theorem metNodes_body (tight : Bool) (body : Node) :
    metNodes (sketchBody tight (some body)) =
      (body, tight) :: metNodes (sketchContent tight body) := by
  rw [sketchBody, metNodes_see, metNodes_map]

theorem metNodes_code (source : Except MarkupError CodeSource) :
    metNodes (sketchCode source) = [] := by
  cases source <;> rfl

/-- An element meets its body and what the body meets, or nothing at all. -/
theorem metNodes_element (tight : Bool) (tag : Tag) (id : Nat)
    (attributes : Option (List Attribute)) (body : Node) :
    metNodes (sketchContent tight (.element tag id attributes (some body))) =
      if (Node.element tag id attributes (some body)).hidesBody then []
      else metNodes (sketchBody
        ((Node.element tag id attributes (some body)).isNoSpace || tight) (some body)) := by
  cases tag with
  | input | image =>
    rw [sketchContent]
    rfl
  | code =>
    rw [sketchContent]
    exact metNodes_code _
  | custom name =>
    rw [sketchContent, Node.hidesBody_custom]
    cases Panel.ofName? name with
    | none => rfl
    | some kind => exact metNodes_map _ _
  | button | link =>
    rw [sketchContent]
    exact metNodes_map _ _
  | _ =>
    rw [sketchContent_wrapped rfl, metNodes_map]
    simp [Node.hidesBody, Node.isNoSpace]

end View

/-- The node, with whether it is set tight: whether it is below an element that says so. -/
def Standing.sighting (standing : Standing) : Node × Bool :=
  (standing.node, standing.isBelow Node.isNoSpace)

namespace View

/-- Showing a node meets the node and everything below it but what is below a hidden body. -/
def MeetsCut (node : Node) : Prop :=
  ∀ above : List Node, above.any Node.hidesBody = false →
    (node, above.any Node.isNoSpace) :: metNodes (sketchContent (above.any Node.isNoSpace) node) =
      (node.cutBelow Node.hidesBody above).map Standing.sighting

theorem meetsCut_leaf {node : Node} (hchildren : node.children = [])
    (h : ∀ tight, metNodes (sketchContent tight node) = []) : MeetsCut node := by
  intro above habove
  rw [Node.cutBelow_eq_cons habove, hchildren, h]
  simp [Standing.sighting, Standing.isBelow]

theorem metNodes_items {items : List Node}
    (hshown : ∀ item ∈ items, ∀ tight, ∃ view, (sketchContent tight item).result = .ok view)
    (h : ∀ item ∈ items, MeetsCut item) {above : List Node}
    (habove : above.any Node.hidesBody = false) :
    metNodes (sketchItems (above.any Node.isNoSpace) items) =
      (items.flatMap (Node.cutBelow Node.hidesBody above)).map Standing.sighting := by
  induction items with
  | nil =>
    rw [sketchItems]
    rfl
  | cons item items ih =>
    rw [List.forall_mem_cons] at h hshown
    obtain ⟨view, hview⟩ := hshown.1 (above.any Node.isNoSpace)
    rw [sketchItems, metNodes_see, metNodes, Traced.seen_bind_of_ok hview, Traced.seen_bind_pure,
      List.filterMap_append, List.flatMap_cons, List.map_append, ← h.1 above habove,
      ← ih hshown.2 h.2]
    rfl

/-- Where nodes stand side by side, each is met in its turn. -/
theorem meetsCut_items {items : List Node}
    (hshown : ∀ item ∈ items, ∀ tight, ∃ view, (sketchContent tight item).result = .ok view)
    (h : ∀ item ∈ items, MeetsCut item) : MeetsCut (.block items) ∧ MeetsCut (.elements items) := by
  refine ⟨fun above habove => ?_, fun above habove => ?_⟩
  · have hinner : (Node.block items :: above).any Node.hidesBody = false := habove
    rw [Node.cutBelow_eq_cons habove, sketchContent, metNodes_map, List.map_cons]
    exact congrArg _ (metNodes_items hshown h hinner)
  · have hinner : (Node.elements items :: above).any Node.hidesBody = false := habove
    rw [Node.cutBelow_eq_cons habove, sketchContent, metNodes_map, List.map_cons]
    exact congrArg _ (metNodes_items hshown h hinner)

theorem meetsCut_element {body : Node} (h : MeetsCut body) (tag : Tag) (id : Nat)
    (attributes : Option (List Attribute)) :
    MeetsCut (.element tag id attributes (some body)) := by
  intro above habove
  rw [Node.cutBelow_eq_cons habove, metNodes_element, List.map_cons]
  cases hhides : (Node.element tag id attributes (some body)).hidesBody with
  | true => rfl
  | false =>
    have hbody := h _ (Node.any_above_cons hhides habove)
    rw [List.any_cons] at hbody
    rw [metNodes_body, hbody, Node.children, Option.toList_some, List.flatMap_singleton]
    rfl

theorem exists_view {room : Nat} {item : Node} (h : IsItem room item) (tight : Bool) :
    ∃ view, (sketchContent tight item).result = .ok view := by
  obtain ⟨view, hview, -⟩ := shows_of_isItem h tight
  exact ⟨view, hview⟩

theorem meetsCut_of_isItem {room : Nat} {item : Node} (h : IsItem room item) : MeetsCut item := by
  induction h with
  | string | number => exact meetsCut_leaf rfl fun tight => by rw [sketchContent]; rfl
  | braced _ _ hitems ih =>
    have hshown := fun item hitem => exists_view (hitems item hitem)
    exact meetsCut_element (meetsCut_items hshown ih).1 _ _ _
  | bare =>
    exact meetsCut_element (meetsCut_leaf rfl fun tight => by rw [sketchContent]; rfl) _ _ _

/-- Showing a document meets everything but what is below a hidden body. -/
theorem metNodes_sketch {tree : Node} (h : IsDocument tree) :
    metNodes (sketch tree) = (tree.cutBelow Node.hidesBody []).map Standing.sighting := by
  obtain ⟨items, rfl, hitems⟩ := h
  have hmet := (meetsCut_items (fun item hitem => exists_view (hitems item hitem)) fun item hitem =>
    meetsCut_of_isItem (hitems item hitem)).2 [.ofItems items] rfl
  rw [sketch, Node.ofItems, metNodes_see, sketchContent, metNodes_map, metNodes_body,
    Node.cutBelow_eq_cons rfl, Node.children, Option.toList_some, List.flatMap_singleton]
  exact congrArg _ hmet

end View

/-! ## What writing meets -/

namespace Node

/-- Whether the body of the element is written as it stands, without being met. -/
def omitsBody : Node → Bool
  | element .code _ _ _ | element .image _ _ _ => true
  | element tag _ _ (some (string _)) => tag.takesBareString
  | _ => false

/-- The attribute values of an element that are not strings. -/
def spelledValues : Node → List Node
  | element _ _ attributes _ =>
    ((attributes.getD []).map Keyed.value).filter fun value => value.stringValue?.isNone
  | _ => []

end Node

/-- The node, and behind it the values of its attributes that are met. -/
def Standing.spelled (standing : Standing) : List Node :=
  standing.node :: standing.node.spelledValues

namespace Source

/-- Writing attributes meets the values that are not strings. -/
theorem seen_writeEntries {entries : List Attribute} (h : ∀ entry ∈ entries, IsEntry entry) :
    (writeEntries entries).seen =
      (entries.map Keyed.value).filter fun value => value.stringValue?.isNone := by
  induction entries with
  | nil => rw [writeEntries]; rfl
  | cons entry entries ih =>
    rw [List.forall_mem_cons] at h
    obtain ⟨key, value⟩ := entry
    have hvalue := h.1.value
    have hrest := ih h.2
    cases hvalue with
    | string value =>
      rw [writeEntries, Node.stringValue?, Traced.seen_bind_of_ok (Traced.result_pure _),
        Traced.seen_bind_pure, hrest]
      rfl
    | number | boolean | name | call =>
      simp only [writeEntries, Node.stringValue?, writeContent]
      rw [Traced.seen_see_bind, Traced.seen_bind_of_ok (Traced.result_pure _),
        Traced.seen_bind_pure, hrest]
      rfl

theorem seen_writeHead (absent : String) {attributes : Option (List Attribute)}
    (h : AreEntries attributes) :
    (writeHead absent attributes).seen =
      ((attributes.getD []).map Keyed.value).filter fun value => value.stringValue?.isNone := by
  cases attributes with
  | none => rw [writeHead]; rfl
  | some entries =>
    rw [writeHead, Traced.seen_bind_pure, seen_writeEntries (areEntries_some.mp h)]
    rfl

/-- Writing a node meets the node and everything below it but what is below an omitted body, each
with its values. -/
def SpellsCut (node : Node) : Prop :=
  ∀ above : List Node, above.any Node.omitsBody = false →
    ∀ text, (writeContent node).result = .ok text →
      node :: (writeContent node).seen =
        (node.cutBelow Node.omitsBody above).flatMap Standing.spelled

theorem seen_writeItems {items : List Node} (h : ∀ item ∈ items, SpellsCut item)
    {above : List Node} (habove : above.any Node.omitsBody = false) {text : String}
    (htext : (writeItems items).result = .ok text) :
    (writeItems items).seen =
      (items.flatMap (Node.cutBelow Node.omitsBody above)).flatMap Standing.spelled := by
  induction items generalizing text with
  | nil => rw [writeItems]; rfl
  | cons item items ih =>
    rw [List.forall_mem_cons] at h
    obtain ⟨first, others, hfirst, hothers, -⟩ := writeItems_cons_eq_ok htext
    rw [writeItems, Traced.seen_see_bind, Traced.seen_bind_of_ok hfirst, Traced.seen_bind_pure,
      ih h.2 hothers, List.flatMap_cons, List.flatMap_append, ← h.1 above habove first hfirst]
    rfl

theorem spellsCut_items {items : List Node} (h : ∀ item ∈ items, SpellsCut item) :
    SpellsCut (.block items) ∧ SpellsCut (.elements items) := by
  refine ⟨fun above habove text htext => ?_, fun above habove text htext => ?_⟩
  · have hinner : (Node.block items :: above).any Node.omitsBody = false := habove
    rw [writeContent] at htext ⊢
    rw [Node.cutBelow_eq_cons habove, List.flatMap_cons]
    exact congrArg _ (seen_writeItems h hinner htext)
  · have hinner : (Node.elements items :: above).any Node.omitsBody = false := habove
    rw [writeContent] at htext ⊢
    rw [Node.cutBelow_eq_cons habove, List.flatMap_cons]
    exact congrArg _ (seen_writeItems h hinner htext)

/-- An element whose body is omitted meets its values. -/
theorem spellsCut_omitted {tag : Tag} {id : Nat} {attributes : Option (List Attribute)}
    {body : Node} (h : (Node.element tag id attributes (some body)).omitsBody = true)
    (hseen : ∀ text, (writeContent (.element tag id attributes (some body))).result = .ok text →
      (writeContent (.element tag id attributes (some body))).seen =
        (Node.element tag id attributes (some body)).spelledValues) :
    SpellsCut (.element tag id attributes (some body)) := by
  intro above habove text htext
  rw [Node.cutBelow_eq_cons habove, if_pos h, hseen text htext]
  simp [Standing.spelled]

theorem spellsCut_braced {tag : Tag} {id : Nat} {attributes : Option (List Attribute)}
    {items : List Node} (hattributes : AreEntries attributes) (h : ∀ item ∈ items, SpellsCut item) :
    SpellsCut (.element tag id attributes (some (.block items))) := by
  by_cases himage : tag = .image
  · subst himage
    refine spellsCut_omitted rfl fun text _ => ?_
    rw [writeContent, Traced.seen_bind_pure, seen_writeHead " " hattributes]
    rfl
  by_cases hcode : tag = .code
  · subst hcode
    refine spellsCut_omitted rfl fun text htext => ?_
    rw [writeContent_code hattributes] at htext
    cases hbody : codeText (some (.block items)) with
    | error e =>
      rw [hbody] at htext
      cases htext
    | ok value =>
      have hlift : (Writing.lift (codeText (some (.block items)))).result = .ok value := hbody
      rw [writeContent, Traced.seen_bind_of_ok hlift, Traced.seen_bind_pure,
        seen_writeHead " " hattributes]
      rfl
  intro above habove text htext
  have hkept : (Node.element tag id attributes (some (.block items))).omitsBody = false := by
    cases tag <;> first | rfl | exact absurd rfl himage | exact absurd rfl hcode
  rw [writeContent_braced hattributes himage hcode] at htext
  cases hitems : (writeItems items).result with
  | error e =>
    rw [hitems] at htext
    cases htext
  | ok inner =>
    have hblock : (writeContent (.block items)).result = .ok inner := by rwa [writeContent]
    have hbody := (spellsCut_items h).1 _ (Node.any_above_cons hkept habove) inner hblock
    have hbare : bareString? tag (some (.block items)) = none := by
      rw [bareString?]
      split <;> rfl
    rw [Node.cutBelow_eq_cons habove, hkept, Node.children, Option.toList_some, writeContent]
    · simp only [hbare]
      rw [Traced.seen_bind_of_ok (writeHead_eq " " hattributes), Traced.seen_bind_pure, writeBody,
        Traced.seen_see_bind, hbody, seen_writeHead " " hattributes]
      simp [Standing.spelled, Node.spelledValues]
    · exact himage
    · exact hcode

theorem spellsCut_bare {tag : Tag} {id : Nat} {attributes : Option (List Attribute)}
    {value : String} (hattributes : AreEntries attributes) (hbare : tag.takesBareString = true) :
    SpellsCut (.element tag id attributes (some (.string value))) := by
  have homitted : (Node.element tag id attributes (some (.string value))).omitsBody = true := by
    cases tag <;> first | rfl | cases hbare
  refine spellsCut_omitted homitted fun text _ => ?_
  have hbody : bareString? tag (some (.string value)) = some value := by
    rw [bareString?, if_pos hbare]
    rfl
  rw [writeContent]
  · simp only [hbody]
    rw [Traced.seen_bind_pure, seen_writeHead "" hattributes]
    rfl
  · exact Tag.ne_image_of_takesBareString hbare
  · exact Tag.ne_code_of_takesBareString hbare

theorem spellsCut_of_isItem {room : Nat} {item : Node} (h : IsItem room item) : SpellsCut item := by
  induction h with
  | string | number =>
    intro above habove text _
    rw [Node.cutBelow_eq_cons habove, writeContent]
    rfl
  | braced _ hattributes _ ih => exact spellsCut_braced hattributes ih
  | bare _ hattributes hbare => exact spellsCut_bare hattributes hbare

/-- Writing a document meets everything but what is below an omitted body. -/
theorem seen_writeTraced {tree : Node} (h : IsDocument tree) {text : String}
    (htext : write tree = .ok text) :
    (writeTraced tree).seen = (tree.cutBelow Node.omitsBody []).flatMap Standing.spelled := by
  obtain ⟨items, rfl, hitems⟩ := h
  rw [write_ofItems] at htext
  have helements : (writeContent (.elements items)).result = .ok text := by
    rwa [writeContent]
  have hseen := (spellsCut_items fun item hitem => spellsCut_of_isItem (hitems item hitem)).2
    [.ofItems items] rfl text helements
  have hroot : (Node.ofItems items).cutBelow Node.omitsBody [] =
      ⟨.ofItems items, []⟩ :: (Node.elements items).cutBelow Node.omitsBody [.ofItems items] := by
    rw [Node.cutBelow_eq_cons rfl]
    exact congrArg _ (List.flatMap_singleton _ _)
  rw [hroot, List.flatMap_cons, ← hseen, writeTraced, Traced.seen_see_bind, Node.ofItems,
    writeContent, Traced.seen_see_bind]
  rfl

end Source

/-- Showing what was read meets the nodes of the walk that are not below an input, an image, a code
element or an author's own element other than a panel, each set tight if it is below an element that
says so. Writing it meets the nodes that are not below an omitted body, each with the values of its
attributes that are not strings right behind it. -/
theorem read_meets {source : String} {tree : Node} (h : Source.read source = .ok tree) :
    (tree.standings []).map Standing.node = tree.walk ∧
      (∀ save table, (Rendering.render (.display save) table tree).met =
        ((tree.standings []).filter fun standing => !standing.isBelow Node.hidesBody).map
          fun standing => (standing.node, standing.isBelow Node.isNoSpace)) ∧
      ∀ text, Source.write tree = .ok text →
        (Source.writeTraced tree).seen =
          ((tree.standings []).filter fun standing => !standing.isBelow Node.omitsBody).flatMap
            fun standing => standing.node :: standing.node.spelledValues := by
  have hdocument := isDocument_of_read h
  exact ⟨Node.map_node_standings [] tree, fun _ _ => View.metNodes_sketch hdocument,
    fun _ htext => seen_writeTraced hdocument htext⟩

/-- A paragraph with a number among its attributes, a tight part and an element that is not shown,
and a code element behind it. -/
def visitedSource : String :=
  "p[n=1, s=`x`] \x7b nospace \x7b b `x` \x7d aside \x7b `y` \x7d \x7d code[run=true] \x7b `z` \x7d"

theorem read_meets_visitedSource :
    ∃ tree text, Source.read visitedSource = .ok tree ∧ Source.write tree = .ok text ∧
      (Rendering.render (.display false) .empty tree).met.map (fun met => (met.1.tagName, met.2)) =
        [("Document", false), ("ElementList", false), ("p", false), ("Block", false),
          ("nospace", false), ("Block", true), ("b", true), ("String", true), ("aside", false),
          ("code", false)] ∧
      (Source.writeTraced tree).seen.map Node.tagName =
        ["Document", "ElementList", "p", "Number", "Block", "nospace", "Block", "b", "aside",
          "Block", "String", "code", "Boolean"] := by
  have hfacts : (Source.read visitedSource).toOption.any (fun tree =>
      (Source.write tree).toOption.isSome ∧
      ((tree.standings []).filter fun standing => !standing.isBelow Node.hidesBody).map
          (fun standing => (standing.node.tagName, standing.isBelow Node.isNoSpace)) =
        [("Document", false), ("ElementList", false), ("p", false), ("Block", false),
          ("nospace", false), ("Block", true), ("b", true), ("String", true), ("aside", false),
          ("code", false)] ∧
      (((tree.standings []).filter fun standing => !standing.isBelow Node.omitsBody).flatMap
          fun standing => standing.node :: standing.node.spelledValues).map Node.tagName =
        ["Document", "ElementList", "p", "Number", "Block", "nospace", "Block", "b", "aside",
          "Block", "String", "code", "Boolean"]) = true := by
    decide +kernel
  obtain ⟨tree, hread, hfacts⟩ := (Option.any_eq_true _ _).mp hfacts
  replace hread := eq_ok_of_toOption hread
  obtain ⟨hwritten, hmet, hseen⟩ := of_decide_eq_true hfacts
  obtain ⟨text, htext⟩ := Option.isSome_iff_exists.mp hwritten
  replace htext := eq_ok_of_toOption htext
  obtain ⟨-, hshows, hwrites⟩ := read_meets hread
  refine ⟨tree, text, hread, htext, ?_, ?_⟩
  · rw [hshows, List.map_map]
    exact hmet
  · rw [hwrites text htext]
    exact hseen

end ChatMarkup
