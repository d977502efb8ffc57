import ChatMarkup.Proofs.Source.Refusal
import ChatMarkup.Proofs.Tree.Place

/-!
# The code of a tree

The code elements of a tree outside its images, which is all the code that is written. Settling and
numbering a tree leaves them with their text and attributes, and so does reading back a tree that
is the same. Around a place stands the same code whatever fills it, if the whole can be written: then
no code element stands around the place, since its body would not be one string.

* `codes_settled_renumbered`: the code of a settled tree that is numbered anew;
* `codes_fill`: the code of a tree that can be written, by a place in it.
-/

namespace ChatMarkup

open Source

/-- The attributes of an element and the text of its body, if that is one string. -/
def Element.code (element : Element) : Option (List Attribute) × Option String :=
  ⟨element.attributes, (codeText element.body).toOption⟩

/-- Elements that are alike as code: their attributes are the same, and so is their text. -/
structure Element.Alike (x y : Element) : Prop where
  attributes : Node.sameHead x.attributes y.attributes = true
  text : (codeText x.body).toOption = (codeText y.body).toOption

/-- An element that is still there: its attributes are the same, and its body is as it was. -/
structure Element.Stays (x y : Element) : Prop where
  attributes : Node.sameHead x.attributes y.attributes = true
  body : x.body = y.body

namespace Node

mutual

/-- The code elements of a tree outside its images, each before those in its body. -/
def codes : Node → List Element
  | document content => codesOf content
  | elements items => codesAll items
  | block items => codesAll items
  | element tag id attributes body =>
    match tag with
    | .image => []
    | .code => ⟨id, attributes, body⟩ :: codesOf body
    | _ => codesOf body
  | _ => []

def codesAll : List Node → List Element
  | [] => []
  | item :: items => codes item ++ codesAll items

def codesOf : Option Node → List Element
  | none => []
  | some body => codes body

end

theorem codes_element {tag : Tag} (himage : tag ≠ .image) (hcode : tag ≠ .code) (id : Nat)
    (attributes : Option (List Attribute)) (body : Option Node) :
    (element tag id attributes body).codes = codesOf body := by
  rw [codes]
  · exact himage
  · exact hcode

theorem codesAll_append (xs ys : List Node) : codesAll (xs ++ ys) = codesAll xs ++ codesAll ys := by
  induction xs with
  | nil => rfl
  | cons x xs ih => rw [List.cons_append, codesAll, codesAll, ih, List.append_assoc]

/-! ## Settled trees -/

mutual

/-- Settling takes away no code and changes none. -/
theorem codes_settled : ∀ tree : Node, tree.settled.codes = tree.codes
  | .document content => by rw [settled, codes, codes, codesOf_settledBody content]
  | .elements items => by rw [settled, codes, codes, codesAll_settledAll items]
  | .block items => by rw [settled, codes, codes, codesAll_settledAll items]
  | .element tag id attributes body => by
    by_cases himage : tag = .image
    · rw [himage, settled, codes, codes]
    by_cases hcode : tag = .code
    · rw [hcode, settled]
    rw [settled, codes_element himage hcode, codes_element himage hcode, codesOf_settledBody body]
    · exact himage
    · exact hcode
  | .string _ | .number _ | .boolean _ | .identifier _ | .attributeList _ | .binding _ _ => rfl

theorem codesAll_settledAll : ∀ items : List Node, codesAll (settledAll items) = codesAll items
  | [] => rfl
  | item :: items => by
    rw [settledAll, codesAll]
    split
    · rename_i hspace
      rw [codesAll_settledAll items]
      cases item with
      | string value => rfl
      | _ => cases hspace
    · rw [codesAll, codes_settled item, codesAll_settledAll items]

theorem codesOf_settledBody : ∀ body : Option Node, codesOf (settledBody body) = codesOf body
  | none => rfl
  | some body => by rw [settledBody, codesOf, codesOf, codes_settled body]

end

/-! ## Numbers -/

/-- Numbering changes no text of a body. -/
theorem codeText_renumberBody (next : Nat) (body : Option Node) :
    (codeText (renumberBody next body).1).toOption = (codeText body).toOption := by
  match body with
  | none => rfl
  | some (.block []) => rfl
  | some (.block [item]) =>
    cases item <;> simp [renumberBody, renumber, renumberAll, codeText, Except.toOption]
  | some (.block (_ :: _ :: _)) =>
    simp [renumberBody, renumber, renumberAll, codeText, Except.toOption]
  | some (.document _) | some (.elements _) | some (.element ..) | some (.string _)
  | some (.number _) | some (.boolean _) | some (.identifier _) | some (.attributeList _)
  | some (.binding ..) => rfl

mutual

theorem codes_renumber (next : Nat) :
    ∀ tree : Node, (tree.renumber next).1.codes.map Element.code = tree.codes.map Element.code
  | .document content => by
    simpa only [renumber, codes] using codesOf_renumberBody next content
  | .elements items => by
    simpa only [renumber, codes] using codesAll_renumberAll next items
  | .block items => by
    simpa only [renumber, codes] using codesAll_renumberAll next items
  | .element tag id attributes body => by
    rw [renumber]
    by_cases himage : tag = .image
    · rw [himage, codes, codes]
    by_cases hcode : tag = .code
    · rw [hcode, codes, codes, List.map_cons, List.map_cons, codesOf_renumberBody (next + 1) body,
        Element.code, codeText_renumberBody]
      rfl
    rw [codes_element himage hcode, codes_element himage hcode, codesOf_renumberBody (next + 1) body]
  | .string _ | .number _ | .boolean _ | .identifier _ | .attributeList _ | .binding _ _ => rfl

theorem codesAll_renumberAll (next : Nat) :
    ∀ items : List Node,
      (codesAll (renumberAll next items).1).map Element.code = (codesAll items).map Element.code
  | [] => rfl
  | item :: items => by
    simp only [renumberAll, codesAll, List.map_append, codes_renumber next item,
      codesAll_renumberAll _ items]

theorem codesOf_renumberBody (next : Nat) :
    ∀ body : Option Node,
      (codesOf (renumberBody next body).1).map Element.code = (codesOf body).map Element.code
  | none => rfl
  | some body => by simpa only [renumberBody, codesOf] using codes_renumber next body

end

theorem codes_settled_renumbered (tree : Node) :
    tree.settled.renumbered.codes.map Element.code = tree.codes.map Element.code := by
  rw [renumbered, codes_renumber, codes_settled]

/-! ## Trees that are the same -/

/-- Bodies that are the same, or both absent. -/
def sameBody : Option Node → Option Node → Bool
  | none, none => true
  | some a, some b => same a b
  | _, _ => false

theorem same_element_iff {tag other : Tag} {id number : Nat} {xs ys : Option (List Attribute)}
    {a b : Option Node} :
    same (element tag id xs a) (element other number ys b) = true ↔
      tag = other ∧ id = number ∧ sameHead xs ys = true ∧ sameBody a b = true := by
  cases xs <;> cases ys <;> cases a <;> cases b <;>
    simp [same, sameHead, sameBody, and_assoc]

theorem same_document_iff {a b : Option Node} :
    same (document a) (document b) = true ↔ sameBody a b = true := by
  cases a <;> cases b <;> simp [same, sameBody]

theorem codeText_of_sameAll {as bs : List Node} (h : sameAll as bs = true) :
    (codeText (some (.block as))).toOption = (codeText (some (.block bs))).toOption := by
  cases as with
  | nil =>
    cases bs with
    | nil => rfl
    | cons b bs => cases h
  | cons a as =>
    cases bs with
    | nil => cases h
    | cons b bs =>
      rw [sameAll, Bool.and_eq_true] at h
      cases as with
      | nil =>
        cases bs with
        | nil => cases a <;> cases b <;> simp_all [same, codeText, Except.toOption]
        | cons => cases h.2
      | cons =>
        cases bs with
        | nil => cases h.2
        | cons => simp [codeText, Except.toOption]

/-- Bodies that are the same have the same text, if they have any. -/
theorem codeText_of_sameBody {a b : Option Node} (h : sameBody a b = true) :
    (codeText a).toOption = (codeText b).toOption := by
  cases a with
  | none =>
    cases b with
    | none => rfl
    | some b => cases h
  | some a =>
    cases b with
    | none => cases h
    | some b =>
      rw [sameBody] at h
      cases a with
      | block as =>
        cases b with
        | block bs =>
          rw [same] at h
          exact codeText_of_sameAll h
        | _ => simp [same] at h
      | _ => cases b <;> first | rfl | simp [same] at h

mutual

theorem alike_of_same : ∀ a b : Node, same a b = true → List.Forall₂ Element.Alike a.codes b.codes
  | .document content, b, h => by
    cases b with
    | document other => exact alike_of_sameBody content other (same_document_iff.mp h)
    | _ => simp [same] at h
  | .elements items, b, h => by
    cases b with
    | elements others =>
      rw [same] at h
      exact alike_of_sameAll items others h
    | _ => simp [same] at h
  | .block items, b, h => by
    cases b with
    | block others =>
      rw [same] at h
      exact alike_of_sameAll items others h
    | _ => simp [same] at h
  | .element tag id xs body, b, h => by
    cases b with
    | element tag' id' ys other =>
      obtain ⟨rfl, -, hhead, hbody⟩ := same_element_iff.mp h
      have hcodes := alike_of_sameBody body other hbody
      by_cases himage : tag = .image
      · rw [himage, codes, codes]
        exact .nil
      by_cases hcode : tag = .code
      · rw [hcode, codes, codes]
        exact .cons ⟨hhead, codeText_of_sameBody hbody⟩ hcodes
      rwa [codes_element himage hcode, codes_element himage hcode]
    | _ => simp [same] at h
  | .string _, b, h | .number _, b, h | .boolean _, b, h | .identifier _, b, h
  | .attributeList _, b, h | .binding _ _, b, h => by
    cases b <;> first | exact .nil | simp [same] at h

theorem alike_of_sameAll :
    ∀ as bs : List Node, sameAll as bs = true → List.Forall₂ Element.Alike (codesAll as) (codesAll bs)
  | [], bs, h => by
    cases bs with
    | nil => exact .nil
    | cons b bs => cases h
  | a :: as, bs, h => by
    cases bs with
    | nil => cases h
    | cons b bs =>
      rw [sameAll, Bool.and_eq_true] at h
      exact List.rel_append (alike_of_same a b h.1) (alike_of_sameAll as bs h.2)

theorem alike_of_sameBody :
    ∀ a b : Option Node, sameBody a b = true → List.Forall₂ Element.Alike (codesOf a) (codesOf b)
  | none, b, h => by
    cases b with
    | none => exact .nil
    | some b => cases h
  | some a, b, h => by
    cases b with
    | none => cases h
    | some b => exact alike_of_same a b h

end

/-- Only attributes and text count. -/
theorem alike_of_map_code {xs ys zs : List Element} (h : List.Forall₂ Element.Alike xs ys)
    (hcode : ys.map Element.code = zs.map Element.code) : List.Forall₂ Element.Alike xs zs := by
  have hpairs : List.Forall₂ (fun (x : Element) code => sameHead x.attributes code.1 = true ∧
      (codeText x.body).toOption = code.2) xs (ys.map Element.code) :=
    List.forall₂_map_right_iff.mpr (h.imp fun _ _ hxy => ⟨hxy.attributes, hxy.text⟩)
  rw [hcode, List.forall₂_map_right_iff] at hpairs
  exact hpairs.imp fun _ _ hxy => ⟨hxy.1, hxy.2⟩

/-! ## Trees that can be written -/

theorem body_of_codeText {body : Option Node} {text : String}
    (h : (codeText body).toOption = some text) : body = some (.block [.string text]) := by
  rw [codeText.eq_def] at h
  split at h
  · rw [Option.some.inj h]
  all_goals cases h

theorem isText_of_refusal {body : Option Node} (h : refusal? (codeText body) = none) :
    ∃ text, body = some (.block [.string text]) := by
  cases hcode : codeText body with
  | error e =>
    rw [hcode] at h
    cases h
  | ok text => exact ⟨text, body_of_codeText (by rw [hcode]; rfl)⟩

mutual

/-- All code of a tree that can be written is text. -/
theorem isText_of_refusals :
    ∀ tree : Node, tree.refusals = [] →
      ∀ element ∈ tree.codes, ∃ text, element.body = some (.block [.string text])
  | .document content, h => isText_of_refusalsOf content h
  | .elements items, h => isText_of_refusalsAll items h
  | .block items, h => isText_of_refusalsAll items h
  | .element tag id attributes body, h => by
    by_cases himage : tag = .image
    · rw [himage, codes]
      nofun
    by_cases hcode : tag = .code
    · rw [hcode, refusals, Option.toList_eq_nil_iff] at h
      obtain ⟨text, rfl⟩ := isText_of_refusal h
      rw [hcode, codes]
      simp [codesOf, codes, codesAll]
    rw [refusals_element himage hcode] at h
    rw [codes_element himage hcode]
    exact isText_of_refusalsOf body h
  | .string _, _ | .number _, _ | .boolean _, _ | .identifier _, _ | .attributeList _, _
  | .binding _ _, _ => nofun

theorem isText_of_refusalsAll :
    ∀ items : List Node, refusalsAll items = [] →
      ∀ element ∈ codesAll items, ∃ text, element.body = some (.block [.string text])
  | [], _ => nofun
  | item :: items, h => by
    rw [refusalsAll, List.append_eq_nil_iff] at h
    rw [codesAll, List.forall_mem_append]
    exact ⟨isText_of_refusals item h.1, isText_of_refusalsAll items h.2⟩

theorem isText_of_refusalsOf :
    ∀ body : Option Node, refusalsOf body = [] →
      ∀ element ∈ codesOf body, ∃ text, element.body = some (.block [.string text])
  | none, _ => nofun
  | some body, h => isText_of_refusals body h

end

/-- Where the text is that of a body of one string, the body is. -/
theorem stays_of_alike {xs ys : List Element} (h : List.Forall₂ Element.Alike xs ys)
    (htext : ∀ y ∈ ys, ∃ text, y.body = some (.block [.string text])) :
    List.Forall₂ Element.Stays xs ys := by
  induction h with
  | nil => exact .nil
  | cons hxy _ ih =>
    rw [List.forall_mem_cons] at htext
    obtain ⟨⟨text, hbody⟩, hrest⟩ := htext
    have hx := hxy.text
    rw [hbody] at hx
    exact .cons ⟨hxy.attributes, (body_of_codeText hx).trans hbody.symm⟩ (ih hrest)

/-- What is the same as a tree that can be written, settled and numbered anew, has all its code. -/
theorem codes_stay {back tree : Node} (h : back.same tree.settled.renumbered = true)
    (hwritten : tree.refusals = []) : List.Forall₂ Element.Stays back.codes tree.codes :=
  stays_of_alike (alike_of_map_code (alike_of_same _ _ h) (codes_settled_renumbered tree))
    (isText_of_refusals tree hwritten)

/-! ## Around a place -/

/-- What stands on this level is not looked at for code: it is in an image, or under a key. -/
def Layer.hides : Layer → Bool
  | element tag _ _ => tag = .image
  | binding _ => true
  | document | elements .. | block .. => false

/-- The place is somewhere in an image, or under a key. -/
def Place.isHidden : Place → Bool
  | here => false
  | inside layer place => layer.hides || isHidden place

theorem stringValue?_fill {filler : Node} {found : Element} (hfiller : filler.element? = some found)
    (place : Place) : (place.fill filler).stringValue? = none := by
  cases place with
  | here =>
    cases filler with
    | string value => cases hfiller
    | _ => rfl
  | inside layer place => cases layer <;> rfl

/-- A body with an element in it is not one string. -/
theorem fill_ne_text {filler : Node} {found : Element} (hfiller : filler.element? = some found)
    (place : Place) (text : String) : place.fill filler ≠ .block [.string text] := by
  intro h
  cases place with
  | here =>
    rw [Place.fill] at h
    rw [h] at hfiller
    cases hfiller
  | inside layer place =>
    cases layer with
    | block before after =>
      injection h with hitems
      have hmem : place.fill filler ∈ [Node.string text] := by simp [← hitems]
      have hstring := stringValue?_fill hfiller place
      rw [List.mem_singleton.mp hmem] at hstring
      cases hstring
    | _ => cases h

theorem codes_around_hidden {layer : Layer} (h : layer.hides = true) (node : Node) :
    (layer.around node).codes = [] := by
  cases layer with
  | element tag id attributes =>
    obtain rfl : tag = .image := of_decide_eq_true h
    rfl
  | binding key => rfl
  | _ => cases h

/-- On a level that can be written and hides nothing stands the same code around its place,
whatever fills that. -/
theorem codes_around {layer : Layer} (h : layer.hides = false) {filler : Node}
    (hfiller : ∀ text, filler ≠ .block [.string text])
    (hwritten : (layer.around filler).refusals = []) :
    filler.refusals = [] ∧
      ∃ before after, ∀ node, (layer.around node).codes = before ++ (node.codes ++ after) := by
  cases layer with
  | document => exact ⟨hwritten, [], [], fun node => (List.append_nil _).symm⟩
  | binding key => cases h
  | elements front back | block front back =>
    rw [Layer.around, refusals, refusalsAll_append, refusalsAll, List.append_eq_nil_iff,
      List.append_eq_nil_iff] at hwritten
    refine ⟨hwritten.2.1, codesAll front, codesAll back, fun node => ?_⟩
    rw [Layer.around, codes, codesAll_append, codesAll]
  | element tag id attributes =>
    have himage : tag ≠ .image := of_decide_eq_false h
    by_cases hcode : tag = .code
    · rw [hcode, Layer.around, refusals, Option.toList_eq_nil_iff] at hwritten
      obtain ⟨text, htext⟩ := isText_of_refusal hwritten
      exact absurd (Option.some.inj htext) (hfiller text)
    rw [Layer.around, refusals_element himage hcode] at hwritten
    refine ⟨hwritten, [], [], fun node => ?_⟩
    rw [Layer.around, codes_element himage hcode, codesOf, List.append_nil, List.nil_append]

/-- Around a place in a tree that can be written stands the same code, whatever fills the place. -/
theorem codes_fill {place : Place} {filler : Node} {found : Element}
    (hfiller : filler.element? = some found) (hwritten : (place.fill filler).refusals = []) :
    ∃ before after, ∀ node, (place.fill node).codes =
      before ++ ((if place.isHidden then [] else node.codes) ++ after) := by
  induction place with
  | here => exact ⟨[], [], fun node => (List.append_nil _).symm⟩
  | inside layer place ih =>
    cases hlayer : layer.hides with
    | true =>
      refine ⟨[], [], fun node => ?_⟩
      rw [Place.fill, codes_around_hidden hlayer, Place.isHidden, hlayer]
      rfl
    | false =>
      obtain ⟨hinner, front, back, hlevel⟩ :=
        codes_around hlayer (fill_ne_text hfiller place) hwritten
      obtain ⟨before, after, hcodes⟩ := ih hinner
      refine ⟨front ++ before, after ++ back, fun node => ?_⟩
      rw [Place.fill, hlevel, hcodes, Place.isHidden, hlayer, Bool.false_or]
      simp only [List.append_assoc]

end Node

end ChatMarkup
