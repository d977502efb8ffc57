import ChatMarkup.Proofs.Tree.Openings
import ChatMarkup.Proofs.Source.RoundTrip
import ChatMarkup.Proofs.View.Sketch

/-!
# The code elements that are shown

Whether a code element is shown depends on the tags of the elements around it and on nothing else,
so that the shown code elements of a tree can be listed without showing it. Of the attributes of
such an element the keys count, and of a scalar its text and whether it is a set flag: these are its
marks.

* `codeSources_shown`: the blocks that are met are the code elements that are shown, and which of
  them are to be run is a matter of their attributes;
* `attributesAt_of_shown`: the number of a shown code element leads to its attributes;
* `unnamed_congr`: whether an element is to be run and names no file is a matter of its marks.
-/

namespace ChatMarkup

open Source

/-- Whether the code elements in the body of an element are shown; those in a code element are
not. -/
def Tag.showsBody : Tag → Bool
  | .input | .image | .code => false
  | .custom name => (Panel.ofName? name).isSome
  | _ => true

namespace Node

mutual

/-- The code elements that are shown, in the order of the walk. -/
def shown : Node → List Opening
  | document content => shownBody content
  | elements items => shownAll items
  | block items => shownAll items
  | element tag id attributes body =>
    if tag = .code then [⟨tag, id, attributes⟩]
    else if tag.showsBody then shownBody body
    else []
  | _ => []

def shownAll : List Node → List Opening
  | [] => []
  | item :: items => shown item ++ shownAll items

def shownBody : Option Node → List Opening
  | none => []
  | some body => shown body

end

theorem shown_code (id : Nat) (attributes : Option (List Attribute)) (body : Option Node) :
    (element .code id attributes body).shown = [⟨.code, id, attributes⟩] := by
  rw [shown, if_pos rfl]

theorem shown_element {tag : Tag} (hcode : tag ≠ .code) (id : Nat)
    (attributes : Option (List Attribute)) (body : Option Node) :
    (element tag id attributes body).shown = if tag.showsBody then shownBody body else [] := by
  rw [shown, if_neg hcode]

theorem shown_ofItems (items : List Node) : (ofItems items).shown = shownAll items := by
  rw [ofItems, shown, shownBody, shown]

theorem shownAll_append (xs ys : List Node) : shownAll (xs ++ ys) = shownAll xs ++ shownAll ys := by
  induction xs with
  | nil => rfl
  | cons x xs ih => rw [List.cons_append, shownAll, shownAll, ih, List.append_assoc]

/-- Whether an element with these attributes is to be run, if it is code. -/
def listRuns (attributes : Option (List Attribute)) : Bool :=
  (View.attributeText? attributes "lang").getD "" = runnableLang &&
    (attributes.bind fun entries => Attributes.scalar? entries "run").any Scalar.isTrue

theorem ne_code_of_showsBody {tag : Tag} (h : tag.showsBody = true) : tag ≠ .code := by
  rintro rfl
  cases h

end Node

namespace Opening

/-- Whether a code element is to be run when its message is saved. -/
def runs (opening : Opening) : Bool :=
  Node.listRuns opening.attributes

/-- Whether a code element is to be run and could be given a file name. -/
def unnamed (opening : Opening) : Bool :=
  opening.runs && Node.listLacks opening.attributes

/-- What counts of an attribute when code is run: its key and, of a scalar, the text and whether it
is a set flag. -/
abbrev Mark := String × Option (String × Bool)

/-- The mark of an attribute. -/
def mark (entry : Attribute) : Mark :=
  (entry.key, entry.value.scalar?.map fun scalar => (scalar.text, scalar.isTrue))

/-- What counts of the attributes of an element. -/
def marks (opening : Opening) : Option (List Mark) :=
  opening.attributes.map (List.map mark)

/-- The mark of the last scalar with a key. -/
def markOf? (marks : List Mark) (key : String) : Option (String × Bool) :=
  marks.reverse.findSome? fun mark => if mark.1 = key then mark.2 else none

theorem scalar?_mark (entries : List Attribute) (key : String) :
    (Attributes.scalar? entries key).map (fun scalar => (scalar.text, scalar.isTrue)) =
      markOf? (entries.map mark) key := by
  rw [Attributes.scalar?_eq_findSome?, markOf?, ← List.map_reverse]
  induction entries.reverse with
  | nil => rfl
  | cons entry entries ih =>
    rw [List.findSome?_cons, List.map_cons, List.findSome?_cons, ← ih, mark]
    by_cases hkey : entry.key = key
    · simp only [hkey, ↓reduceIte]
      cases entry.value.scalar? <;> rfl
    · simp only [hkey, ↓reduceIte]

theorem runs_eq (opening : Opening) :
    opening.runs = opening.marks.any fun marks =>
      ((markOf? marks "lang").map Prod.fst).getD "" = runnableLang &&
        (markOf? marks "run").any Prod.snd := by
  rw [runs, Node.listRuns, marks]
  cases opening.attributes with
  | none => rfl
  | some entries =>
    rw [View.attributeText?, Option.bind_some, Option.bind_some, Option.map_some, Option.any_some,
      ← scalar?_mark, ← scalar?_mark, Option.map_map, Option.any_map]
    rfl

theorem listLacks_eq (opening : Opening) :
    Node.listLacks opening.attributes = opening.marks.any fun marks =>
      !marks.any fun mark => mark.1 = filenameKey := by
  rw [marks, Node.listLacks, Option.any_map]
  cases opening.attributes with
  | none => rfl
  | some entries =>
    show (!Attributes.contains entries filenameKey) = !(entries.map mark).any _
    rw [List.any_map]
    rfl

/-- Whether an element is to be run and could be given a file name is a matter of its marks. -/
theorem unnamed_congr {opening other : Opening} (h : opening.marks = other.marks) :
    opening.unnamed = other.unnamed := by
  rw [unnamed, unnamed, runs_eq, runs_eq, listLacks_eq, listLacks_eq, h]

/-- No shown code element could be given a file name when it is run, if the marks are those of a
tree where none could. -/
theorem forall_named_congr {openings others : List Opening}
    (h : openings.map marks = others.map marks)
    (hnamed : ∀ opening ∈ others, opening.unnamed = false) :
    ∀ opening ∈ openings, opening.unnamed = false := by
  intro opening hmem
  have hmarks : opening.marks ∈ others.map marks := h ▸ List.mem_map_of_mem hmem
  obtain ⟨other, hother, heq⟩ := List.mem_map.mp hmarks
  rw [← unnamed_congr heq]
  exact hnamed other hother

end Opening

/-! ## The blocks that are met -/

namespace View

variable {α β : Type}

/-- The numbers of the blocks that a sketch meets, each with whether the block is to be run. -/
def met (x : Sketching α) : List (Nat × Bool) :=
  (x.seen.filterMap Sighting.block?).map fun source => (source.node, source.runs)

theorem met_see (node : Node) (tight : Bool) (x : Sketching α) :
    met (Traced.see (.node node tight) >>= fun _ => x) = met x := by
  rw [met, Traced.seen_bind_of_ok (Traced.result_see _), Traced.seen_see]
  rfl

theorem met_map {x : Sketching α} {a : α} (h : x.result = .ok a) (f : α → β) :
    met (x >>= fun a => pure (f a)) = met x := by
  rw [met, Traced.seen_bind_of_ok h, Traced.seen_pure, List.append_nil]
  rfl

theorem met_bind {x : Sketching α} {a : α} (h : x.result = .ok a) (f : α → Sketching β) :
    met (x >>= f) = met x ++ met (f a) := by
  rw [met, Traced.seen_bind_of_ok h, List.filterMap_append, List.map_append]
  rfl

/-- Where a block is met, and whether it is to be run. -/
def place (opening : Opening) : Nat × Bool :=
  (opening.id, opening.runs)

theorem met_code {attributes : Option (List Attribute)} (h : AreEntries attributes) (id : Nat)
    (body : Option Node) :
    met (sketchCode (codeSource id attributes body)) = [place ⟨.code, id, attributes⟩] := by
  cases attributes with
  | none => rfl
  | some entries =>
    obtain ⟨source, hsource⟩ := attributeSource_eq_ok h
    rw [codeSource, hsource]
    rfl

/-- Sketching a node meets the code elements that are shown of it. -/
def Meets (node : Node) : Prop :=
  ∀ tight, (∃ view, (sketchContent tight node).result = .ok view) ∧
    met (sketchContent tight node) = node.shown.map place

theorem met_items {items : List Node} (h : ∀ item ∈ items, Meets item) (tight : Bool) :
    (∃ views, (sketchItems tight items).result = .ok views) ∧
      met (sketchItems tight items) = (Node.shownAll items).map place := by
  induction items with
  | nil =>
    rw [sketchItems]
    exact ⟨⟨[], rfl⟩, rfl⟩
  | cons item items ih =>
    rw [List.forall_mem_cons] at h
    obtain ⟨⟨first, hfirst⟩, hmet⟩ := h.1 tight
    obtain ⟨⟨others, hothers⟩, hmets⟩ := ih h.2
    rw [sketchItems]
    refine ⟨⟨first :: others, ?_⟩, ?_⟩
    · rw [Traced.result_bind_of_ok (Traced.result_see _), Traced.result_bind_of_ok hfirst,
        Traced.result_bind_of_ok hothers]
      rfl
    · rw [met_see, met_bind hfirst, met_map hothers, hmet, hmets, Node.shownAll, List.map_append]

theorem met_body {body : Node} (h : Meets body) (tight : Bool) :
    (∃ views, (sketchBody tight (some body)).result = .ok views) ∧
      met (sketchBody tight (some body)) = (Node.shownBody (some body)).map place := by
  obtain ⟨⟨view, hview⟩, hmet⟩ := h tight
  rw [sketchBody]
  refine ⟨⟨view.parts, ?_⟩, ?_⟩
  · rw [Traced.result_bind_of_ok (Traced.result_see _), Traced.result_bind_of_ok hview]
    rfl
  · rw [met_see, met_map hview, hmet, Node.shownBody]

theorem meets_block {items : List Node} (h : ∀ item ∈ items, Meets item) :
    Meets (.block items) := by
  intro tight
  obtain ⟨⟨views, hviews⟩, hmet⟩ := met_items h tight
  rw [sketchContent, Node.shown]
  exact ⟨⟨_, Traced.result_bind_of_ok hviews _⟩, (met_map hviews _).trans hmet⟩

/-- An element that shows its body meets what the body meets. -/
theorem meets_of_body {tag : Tag} {id : Nat} {attributes : Option (List Attribute)} {body : Node}
    (hshows : tag.showsBody = true) {tight inner : Bool} (hbody : Meets body)
    {f : List (View CodeSource) → View CodeSource}
    (h : sketchContent tight (.element tag id attributes (some body)) =
      sketchBody inner (some body) >>= fun children => pure (f children)) :
    (∃ view, (sketchContent tight (.element tag id attributes (some body))).result = .ok view) ∧
      met (sketchContent tight (.element tag id attributes (some body))) =
        (Node.element tag id attributes (some body)).shown.map place := by
  obtain ⟨⟨views, hviews⟩, hmet⟩ := met_body hbody inner
  rw [h, Node.shown_element (Node.ne_code_of_showsBody hshows), if_pos hshows]
  exact ⟨⟨_, Traced.result_bind_of_ok hviews _⟩, (met_map hviews _).trans hmet⟩

theorem sketchContent_wrapped {tag : Tag} {wrapper : Wrapper}
    (h : Wrapper.ofTag? tag = some wrapper) {tight : Bool} (id : Nat)
    (attributes : Option (List Attribute)) (body : Option Node) :
    sketchContent tight (.element tag id attributes body) =
      sketchBody (tight || wrapper = .noSpace) body >>= fun children =>
        pure (.wrapped wrapper children) := by
  cases tag <;> cases h <;> rfl

theorem meets_element {tag : Tag} {id : Nat} {attributes : Option (List Attribute)} {body : Node}
    (h : AreEntries attributes) (hbody : Meets body) :
    Meets (.element tag id attributes (some body)) := by
  intro tight
  cases tag with
  | input | image =>
    rw [sketchContent, Node.shown_element (by decide)]
    exact ⟨⟨_, rfl⟩, rfl⟩
  | code =>
    obtain ⟨source, hsource⟩ := codeSource_eq_ok h id (some body)
    have hmet := met_code h id (some body)
    rw [sketchContent, Node.shown_code]
    rw [hsource] at hmet ⊢
    exact ⟨⟨_, rfl⟩, hmet⟩
  | custom name =>
    cases hkind : Panel.ofName? name with
    | some kind =>
      have hsketch : sketchContent tight (.element (.custom name) id attributes (some body)) =
          sketchBody tight (some body) >>= fun children => pure (.panel kind children) := by
        rw [sketchContent]
        simp only [Wrapper.ofTag?, hkind]
      exact meets_of_body (by rw [Tag.showsBody, hkind]; rfl) hbody hsketch
    | none =>
      have hhides : (Tag.custom name).showsBody = false := by
        rw [Tag.showsBody, hkind]
        rfl
      have hsketch : sketchContent tight (.element (.custom name) id attributes (some body)) =
          pure .empty := by
        rw [sketchContent]
        simp only [Wrapper.ofTag?, hkind]
      have hcode : Tag.custom name ≠ .code := by
        rintro ⟨⟩
      rw [hsketch, Node.shown_element hcode, hhides]
      exact ⟨⟨_, rfl⟩, rfl⟩
  | button =>
    have hsketch : sketchContent tight (.element .button id attributes (some body)) =
        sketchBody tight (some body) >>= fun label =>
          pure (.button id (attributeText? attributes "onclick") label) := by
      rw [sketchContent]
      rfl
    exact meets_of_body rfl hbody hsketch
  | link =>
    have hsketch : sketchContent tight (.element .link id attributes (some body)) =
        sketchBody tight (some body) >>= fun children =>
          pure (.link ((attributeText? attributes "href").getD "") children) := by
      rw [sketchContent]
      rfl
    exact meets_of_body rfl hbody hsketch
  | heading | paragraph | orderedList | unorderedList | listItem | bold | italic | inlineCode
  | preformatted | noSpace => exact meets_of_body rfl hbody (sketchContent_wrapped rfl _ _ _)

theorem meets_of_isItem {room : Nat} {item : Node} (h : IsItem room item) : Meets item := by
  induction h with
  | string | number =>
    intro tight
    rw [sketchContent, Node.shown]
    · exact ⟨⟨_, rfl⟩, rfl⟩
    all_goals simp
  | braced _ hattributes _ ih => exact meets_element hattributes (meets_block ih)
  | bare _ hattributes _ =>
    refine meets_element hattributes fun tight => ?_
    rw [sketchContent, Node.shown]
    · exact ⟨⟨_, rfl⟩, rfl⟩
    all_goals simp

/-- The blocks of a document are the code elements that are shown of it. -/
theorem met_sketch {tree : Node} (h : IsDocument tree) :
    met (sketch tree) = tree.shown.map place := by
  obtain ⟨items, rfl, hitems⟩ := h
  obtain ⟨⟨views, hviews⟩, hmet⟩ :=
    met_items (fun item hitem => meets_of_isItem (hitems item hitem)) false
  have helements : (sketchContent false (.elements items)).result = .ok (.fragment views) := by
    rw [sketchContent]
    exact Traced.result_bind_of_ok hviews _
  rw [Node.shown_ofItems, ← hmet, sketch, Node.ofItems, met_see, sketchContent, sketchBody]
  rw [met_map (Traced.result_bind_of_ok (Traced.result_see _) _ |>.trans
    (Traced.result_bind_of_ok helements _)), met_see, met_map helements, sketchContent,
    met_map hviews]

end View

/-- The blocks of a document are the code elements that are shown of it, and which of them are to be
run is a matter of their attributes. -/
theorem codeSources_shown {tree : Node} (h : IsDocument tree) :
    tree.codeSources.map (fun source => (source.node, source.runs)) =
      tree.shown.map fun opening => (opening.id, opening.runs) :=
  View.met_sketch h

namespace Node

mutual

/-- A code element that is shown is one of the walk. -/
theorem mem_walk_of_shown {opening : Opening} :
    ∀ node : Node, opening ∈ node.shown →
      opening.tag = .code ∧ ∃ body, element .code opening.id opening.attributes body ∈ node.walk
  | document none, h => by simp [shown, shownBody] at h
  | document (some content), h => by
    rw [shown, shownBody] at h
    obtain ⟨htag, body, hmem⟩ := mem_walk_of_shown content h
    exact ⟨htag, body, by rw [walk]; exact List.mem_cons_of_mem _ hmem⟩
  | elements items, h | block items, h => by
    rw [shown] at h
    obtain ⟨htag, body, hmem⟩ := mem_walkAll_of_shown items h
    exact ⟨htag, body, by rw [walk]; exact List.mem_cons_of_mem _ hmem⟩
  | element tag id attributes body, h => by
    rw [shown] at h
    split at h
    · rename_i hcode
      subst hcode
      obtain rfl := List.mem_singleton.mp h
      exact ⟨rfl, body, by rw [walk_eq_cons]; exact List.mem_cons_self⟩
    · split at h
      · cases body with
        | none => simp [shownBody] at h
        | some content =>
          rw [shownBody] at h
          obtain ⟨htag, body, hmem⟩ := mem_walk_of_shown content h
          exact ⟨htag, body, by rw [walk]; exact List.mem_cons_of_mem _ hmem⟩
      · cases h
  | binding _ _, h | string _, h | number _, h | boolean _, h | identifier _, h
  | attributeList _, h => by simp [shown] at h

theorem mem_walkAll_of_shown {opening : Opening} :
    ∀ items : List Node, opening ∈ shownAll items →
      opening.tag = .code ∧ ∃ body, element .code opening.id opening.attributes body ∈ walkAll items
  | [], h => by simp [shownAll] at h
  | item :: items, h => by
    rw [shownAll] at h
    rw [walkAll]
    rcases List.mem_append.mp h with h | h
    · obtain ⟨htag, body, hmem⟩ := mem_walk_of_shown item h
      exact ⟨htag, body, List.mem_append_left _ hmem⟩
    · obtain ⟨htag, body, hmem⟩ := mem_walkAll_of_shown items h
      exact ⟨htag, body, List.mem_append_right _ hmem⟩

end

/-- In a tree whose elements have numbers of their own, the number of a shown code element leads to
its attributes. -/
theorem attributesAt_of_shown {tree : Node} (hnodup : tree.ids.Nodup) {opening : Opening}
    (h : opening ∈ tree.shown) : tree.attributesAt opening.id = some opening.attributes := by
  obtain ⟨-, body, hmem⟩ := mem_walk_of_shown tree h
  have helement : (element .code opening.id opening.attributes body).element? =
      some ⟨opening.id, opening.attributes, body⟩ := rfl
  rw [attributesAt_eq, findElement_of_mem hnodup hmem helement]
  rfl

mutual

/-- Attribute lists do not decide what is shown. -/
theorem ids_shown_bared :
    ∀ node : Node, node.bared.shown.map Opening.id = node.shown.map Opening.id
  | document none => rfl
  | document (some content) => by
    simpa only [bared, shown, shownBody] using ids_shown_bared content
  | elements items => by simpa only [bared, shown] using ids_shown_baredAll items
  | block items => by simpa only [bared, shown] using ids_shown_baredAll items
  | element tag id attributes none => by
    rw [bared, shown, shown]
    split
    · rfl
    · rfl
  | element tag id attributes (some body) => by
    rw [bared, shown, shown]
    split
    · rfl
    · split
      · simpa only [shownBody] using ids_shown_bared body
      · rfl
  | binding _ _ => by simp [bared, shown]
  | string _ | number _ | boolean _ | identifier _ | attributeList _ => rfl

theorem ids_shown_baredAll :
    ∀ items : List Node,
      (shownAll (baredAll items)).map Opening.id = (shownAll items).map Opening.id
  | [] => rfl
  | item :: items => by
    rw [baredAll, shownAll, shownAll, List.map_append, List.map_append, ids_shown_bared item,
      ids_shown_baredAll items]

end

end Node

end ChatMarkup
