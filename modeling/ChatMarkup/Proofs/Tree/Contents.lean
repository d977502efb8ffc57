import ChatMarkup.Proofs.Tree.Settled
import ChatMarkup.Proofs.Tree.Standing

/-!
# Texts of a tree

The texts of the string leaves of a tree, those of its code elements, and the heads of all its
elements, in the order of the walk. Numbers of elements do not count for them.

* `text_renumbered`: a tree numbered anew has its text;
* `codeTexts_renumbered`: and its codes;
* `heads_renumbered`: and the tags and attributes of its elements;
* `numbers_of_mem_walk`: the numbers in a node of a tree are in the tree.
-/

namespace ChatMarkup.Node

/-- The texts of the string leaves. -/
def strings (node : Node) : List String :=
  node.walk.filterMap stringValue?

/-- The texts of the string leaves of some nodes. -/
def stringsOfAll (nodes : List Node) : List String :=
  (walkAll nodes).filterMap stringValue?

/-- The texts of the code elements, each with all that is in its body. -/
def codeTexts (node : Node) : List String :=
  (node.walk.filter isCode).map text

/-- The code elements of some nodes. -/
def codesOfAll (nodes : List Node) : List Node :=
  (walkAll nodes).filter isCode

/-- The texts of the code elements of some nodes. -/
def codeTextsOfAll (nodes : List Node) : List String :=
  ((walkAll nodes).filter isCode).map text

theorem text_eq (node : Node) : node.text = String.join node.strings := rfl

/-! ## Strings -/

@[simp]
theorem strings_string (value : String) : (string value).strings = [value] := rfl

@[simp]
theorem strings_number (value : Number) : (number value).strings = [] := rfl

@[simp]
theorem strings_block (items : List Node) : (block items).strings = stringsOfAll items := by
  rw [strings, walk]
  rfl

@[simp]
theorem strings_elements (items : List Node) : (elements items).strings = stringsOfAll items := by
  rw [strings, walk]
  rfl

@[simp]
theorem strings_document (content : Node) : (document (some content)).strings = content.strings := by
  rw [strings, walk]
  rfl

@[simp]
theorem strings_element (tag : Tag) (id : Nat) (attributes : Option (List Attribute))
    (body : Node) : (element tag id attributes (some body)).strings = body.strings := by
  rw [strings, walk]
  rfl

@[simp]
theorem strings_element_none (tag : Tag) (id : Nat) (attributes : Option (List Attribute)) :
    (element tag id attributes none).strings = [] := rfl

@[simp]
theorem strings_binding (key : String) (value : Node) :
    (binding key value).strings = value.strings := by
  rw [strings, walk]
  rfl

@[simp]
theorem stringsOfAll_nil : stringsOfAll [] = [] := by
  simp [stringsOfAll, walkAll]

@[simp]
theorem stringsOfAll_cons (item : Node) (items : List Node) :
    stringsOfAll (item :: items) = item.strings ++ stringsOfAll items := by
  simp [stringsOfAll, strings, walkAll]

theorem stringsOfAll_append (xs ys : List Node) :
    stringsOfAll (xs ++ ys) = stringsOfAll xs ++ stringsOfAll ys := by
  induction xs with
  | nil => simp
  | cons x xs ih => simp [ih]

mutual

theorem strings_renumber (next : Nat) :
    ∀ node : Node, (node.renumber next).1.strings = node.strings
  | document none => by simp [renumber, renumberBody]
  | document (some content) => by
    simpa [renumber, renumberBody] using strings_renumber next content
  | elements items => by simpa [renumber] using stringsOfAll_renumberAll next items
  | block items => by simpa [renumber] using stringsOfAll_renumberAll next items
  | element tag id attributes none => rfl
  | element tag id attributes (some body) => by
    simpa [renumber, renumberBody] using strings_renumber (next + 1) body
  | binding key value => by simpa [renumber] using strings_renumber next value
  | string _ | number _ | boolean _ | identifier _ | attributeList _ => rfl

theorem stringsOfAll_renumberAll (next : Nat) :
    ∀ items : List Node, stringsOfAll (renumberAll next items).1 = stringsOfAll items
  | [] => rfl
  | item :: items => by
    simp [renumberAll, strings_renumber next item, stringsOfAll_renumberAll _ items]

end

theorem text_renumber (next : Nat) (node : Node) : (node.renumber next).1.text = node.text := by
  rw [text_eq, text_eq, strings_renumber]

theorem text_renumbered (tree : Node) : tree.renumbered.text = tree.text :=
  text_renumber 0 tree

theorem text_ofItems (items : List Node) :
    (ofItems items).text = String.join (stringsOfAll items) := by
  rw [text_eq, ofItems, strings_document, strings_elements]

/-! ## Codes -/

theorem codesOfAll_nil : codesOfAll [] = [] := by
  simp [codesOfAll, walkAll]

theorem codesOfAll_append (xs ys : List Node) :
    codesOfAll (xs ++ ys) = codesOfAll xs ++ codesOfAll ys := by
  simp [codesOfAll, walkAll_eq_flatMap]

/-- The code elements in an element that is no code are those in its body. -/
theorem codesOfAll_singleton {tag : Tag} (htag : tag ≠ .code) (id : Nat)
    (attributes : Option (List Attribute)) (items : List Node) :
    codesOfAll [element tag id attributes (some (block items))] = codesOfAll items := by
  have hcode : (element tag id attributes (some (block items))).isCode = false := by
    cases tag <;> first | exact absurd rfl htag | rfl
  rw [codesOfAll, walkAll, walkAll, List.append_nil, walk, walk,
    List.filter_cons_of_neg (by simp [hcode]), List.filter_cons_of_neg (by simp [isCode]),
    codesOfAll]

theorem codeTexts_document (content : Node) :
    (document (some content)).codeTexts = content.codeTexts := by
  simp [codeTexts, walk, isCode]

theorem codeTexts_elements (items : List Node) :
    (elements items).codeTexts = codeTextsOfAll items := by
  simp [codeTexts, codeTextsOfAll, walk, isCode]

theorem codeTexts_block (items : List Node) : (block items).codeTexts = codeTextsOfAll items := by
  simp [codeTexts, codeTextsOfAll, walk, isCode]

theorem codeTexts_binding (key : String) (value : Node) :
    (binding key value).codeTexts = value.codeTexts := by
  simp [codeTexts, walk, isCode]

/-- A code element has its own text and those of the code elements in its body. -/
theorem codeTexts_element (tag : Tag) (id : Nat) (attributes : Option (List Attribute))
    (body : Node) :
    (element tag id attributes (some body)).codeTexts =
      if tag = .code then body.text :: body.codeTexts else body.codeTexts := by
  have htext : (element tag id attributes (some body)).text = body.text := by
    rw [text_eq, strings_element, text_eq]
  rw [codeTexts, walk, List.filter_cons]
  by_cases htag : tag = .code
  · subst htag
    rw [if_pos rfl]
    exact congrArg (· :: body.codeTexts) htext
  · rw [if_neg, if_neg htag]
    · rfl
    · cases tag <;> first | exact absurd rfl htag | simp [isCode]

theorem codeTexts_element_none (tag : Tag) (id : Nat) (attributes : Option (List Attribute)) :
    (element tag id attributes none).codeTexts = if tag = .code then [""] else [] := by
  cases tag <;> rfl

theorem codeTextsOfAll_cons (item : Node) (items : List Node) :
    codeTextsOfAll (item :: items) = item.codeTexts ++ codeTextsOfAll items := by
  simp [codeTextsOfAll, codeTexts, walkAll]

mutual

theorem codeTexts_renumber (next : Nat) :
    ∀ node : Node, (node.renumber next).1.codeTexts = node.codeTexts
  | document none => rfl
  | document (some content) => by
    simpa only [renumber, renumberBody, codeTexts_document] using codeTexts_renumber next content
  | elements items => by
    simpa only [renumber, codeTexts_elements] using codeTextsOfAll_renumberAll next items
  | block items => by
    simpa only [renumber, codeTexts_block] using codeTextsOfAll_renumberAll next items
  | element tag id attributes none => by
    simp only [renumber, renumberBody, codeTexts_element_none]
  | element tag id attributes (some body) => by
    simp only [renumber, renumberBody, codeTexts_element, text_renumber,
      codeTexts_renumber (next + 1) body]
  | binding key value => by
    simpa only [renumber, codeTexts_binding] using codeTexts_renumber next value
  | string _ | number _ | boolean _ | identifier _ | attributeList _ => rfl

theorem codeTextsOfAll_renumberAll (next : Nat) :
    ∀ items : List Node, codeTextsOfAll (renumberAll next items).1 = codeTextsOfAll items
  | [] => rfl
  | item :: items => by
    simp only [renumberAll, codeTextsOfAll_cons, codeTexts_renumber next item,
      codeTextsOfAll_renumberAll _ items]

end

theorem codeTexts_renumbered (tree : Node) : tree.renumbered.codeTexts = tree.codeTexts :=
  codeTexts_renumber 0 tree

/-! ## Heads -/

/-- The tag and the attributes of an element. -/
def head? : Node → Option (Tag × Option (List Attribute))
  | element tag _ attributes _ => some (tag, attributes)
  | _ => none

/-- The heads of all elements. -/
def heads (node : Node) : List (Tag × Option (List Attribute)) :=
  node.walk.filterMap head?

/-- The heads of all elements of some nodes. -/
def headsOfAll (nodes : List Node) : List (Tag × Option (List Attribute)) :=
  (walkAll nodes).filterMap head?

@[simp]
theorem heads_string (value : String) : (string value).heads = [] := by
  simp [heads, walk, head?]

@[simp]
theorem heads_document (content : Node) : (document (some content)).heads = content.heads := by
  rw [heads, walk]
  rfl

@[simp]
theorem heads_elements (items : List Node) : (elements items).heads = headsOfAll items := by
  rw [heads, walk]
  rfl

@[simp]
theorem heads_block (items : List Node) : (block items).heads = headsOfAll items := by
  rw [heads, walk]
  rfl

@[simp]
theorem heads_binding (key : String) (value : Node) : (binding key value).heads = value.heads := by
  rw [heads, walk]
  rfl

@[simp]
theorem heads_element (tag : Tag) (id : Nat) (attributes : Option (List Attribute))
    (body : Node) :
    (element tag id attributes (some body)).heads = (tag, attributes) :: body.heads := by
  rw [heads, walk]
  rfl

@[simp]
theorem heads_element_none (tag : Tag) (id : Nat) (attributes : Option (List Attribute)) :
    (element tag id attributes none).heads = [(tag, attributes)] := rfl

@[simp]
theorem headsOfAll_nil : headsOfAll [] = [] := by
  simp [headsOfAll, walkAll]

@[simp]
theorem headsOfAll_cons (item : Node) (items : List Node) :
    headsOfAll (item :: items) = item.heads ++ headsOfAll items := by
  simp [headsOfAll, heads, walkAll]

theorem headsOfAll_append (xs ys : List Node) :
    headsOfAll (xs ++ ys) = headsOfAll xs ++ headsOfAll ys := by
  induction xs with
  | nil => simp
  | cons x xs ih => simp [ih]

mutual

theorem heads_renumber (next : Nat) :
    ∀ node : Node, (node.renumber next).1.heads = node.heads
  | document none => rfl
  | document (some content) => by
    simpa [renumber, renumberBody] using heads_renumber next content
  | elements items => by simpa [renumber] using headsOfAll_renumberAll next items
  | block items => by simpa [renumber] using headsOfAll_renumberAll next items
  | element tag id attributes none => rfl
  | element tag id attributes (some body) => by
    simpa [renumber, renumberBody] using heads_renumber (next + 1) body
  | binding key value => by simpa [renumber] using heads_renumber next value
  | string _ | number _ | boolean _ | identifier _ | attributeList _ => rfl

theorem headsOfAll_renumberAll (next : Nat) :
    ∀ items : List Node, headsOfAll (renumberAll next items).1 = headsOfAll items
  | [] => rfl
  | item :: items => by
    simp [renumberAll, heads_renumber next item, headsOfAll_renumberAll _ items]

end

theorem heads_renumbered (tree : Node) : tree.renumbered.heads = tree.heads :=
  heads_renumber 0 tree

theorem heads_ofItems (items : List Node) : (ofItems items).heads = headsOfAll items := by
  rw [ofItems, heads_document, heads_elements]

/-! ## Attributes of code -/

/-- The attributes of a node, if it is an element with a list of them. -/
def attributes? : Node → Option (List Attribute)
  | element _ _ attributes _ => attributes
  | _ => none

/-- The attributes of the code elements. -/
def codeLists (node : Node) : List (Option (List Attribute)) :=
  (node.walk.filter isCode).map attributes?

theorem codeLists_eq (node : Node) :
    node.codeLists =
      node.heads.filterMap fun head => if head.1 = .code then some head.2 else none := by
  rw [codeLists, heads]
  induction node.walk with
  | nil => rfl
  | cons node nodes ih =>
    cases node with
    | element tag id attributes body =>
      have hhead : head? (element tag id attributes body) = some (tag, attributes) := rfl
      rw [List.filter_cons, List.filterMap_cons_some hhead, List.filterMap_cons, ← ih]
      cases tag <;> rfl
    | _ =>
      rw [List.filter_cons_of_neg (by simp [isCode]), ih]
      rfl

theorem codeLists_renumbered (tree : Node) : tree.renumbered.codeLists = tree.codeLists := by
  rw [codeLists_eq, heads_renumbered, codeLists_eq]

theorem codeLists_ofItems (items : List Node) :
    (ofItems items).codeLists = (codesOfAll items).map attributes? := by
  rw [codeLists, ofItems, walk, walk, List.filter_cons_of_neg (by simp [isCode]),
    List.filter_cons_of_neg (by simp [isCode]), codesOfAll]

theorem codeCount_eq (node : Node) : node.codeCount = node.heads.countP (·.1 = .code) := by
  have hlength : node.codeCount = node.codeLists.length := by
    rw [codeCount, codeLists, List.length_map, List.countP_eq_length_filter]
  rw [hlength, codeLists_eq, List.length_filterMap_eq_countP]
  refine List.countP_congr fun head _ => ?_
  by_cases hcode : head.1 = .code <;> simp [hcode]

/-! ## Numbers -/

theorem mem_numbersOfAll {x : Number} {items : List Node} :
    x ∈ numbersOfAll items ↔ ∃ item ∈ items, x ∈ item.numbers := by
  induction items with
  | nil => simp [numbersOfAll]
  | cons item items ih => simp [numbersOfAll, ih]

theorem numbers_of_child {node child : Node} (h : child ∈ node.children) {x : Number}
    (hx : x ∈ child.numbers) : x ∈ node.numbers := by
  cases node with
  | document content | element _ _ _ content =>
    cases content with
    | none => cases h
    | some body =>
      cases List.mem_singleton.mp h
      simp [numbers, numbersOfBody, hx]
  | elements items | block items =>
    rw [numbers]
    exact mem_numbersOfAll.mpr ⟨child, h, hx⟩
  | binding key value =>
    cases List.mem_singleton.mp h
    rwa [numbers]
  | _ => cases h

theorem numbers_of_mem_walk {node below : Node} (h : below ∈ node.walk) {x : Number}
    (hx : x ∈ below.numbers) : x ∈ node.numbers := by
  induction node using induction_children with
  | h node ih =>
    rw [walk_eq_cons, List.mem_cons, List.mem_flatMap] at h
    rcases h with rfl | ⟨child, hchild, hbelow⟩
    · exact hx
    · exact numbers_of_child hchild (ih child hchild hbelow)

end ChatMarkup.Node
