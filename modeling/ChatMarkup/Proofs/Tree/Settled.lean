import ChatMarkup.Tree.Basic

/-!
# Settled trees

What a tree becomes when it is kept as source: the lone spaces between its items are gone, its
images have empty bodies, and its elements are numbered anew. `same` compares the numbers of two
trees as values, so that the sign of a zero does not count.
-/

namespace ChatMarkup.Node

mutual

/-- The numbers of a tree, those of its attributes among them. -/
def numbers : Node → List Number
  | document content => numbersOfBody content
  | elements items => numbersOfAll items
  | block items => numbersOfAll items
  | element _ _ attributes body => numbersOfHead attributes ++ numbersOfBody body
  | number value => [value]
  | attributeList attributes => numbersOfEntries attributes
  | binding _ value => numbers value
  | _ => []

def numbersOfAll : List Node → List Number
  | [] => []
  | item :: items => numbers item ++ numbersOfAll items

def numbersOfBody : Option Node → List Number
  | none => []
  | some body => numbers body

def numbersOfHead : Option (List (Keyed Node)) → List Number
  | none => []
  | some attributes => numbersOfEntries attributes

def numbersOfEntries : List (Keyed Node) → List Number
  | [] => []
  | ⟨_, value⟩ :: rest => numbers value ++ numbersOfEntries rest

end

mutual

/-- The tree without the lone spaces between its items and with an empty text in its images. The
body of a code element stays as it is. -/
def settled : Node → Node
  | document content => document (settledBody content)
  | elements items => elements (settledAll items)
  | block items => block (settledAll items)
  | element tag id attributes body =>
    match tag with
    | .image => element .image id attributes (some (block [string ""]))
    | .code => element .code id attributes body
    | tag => element tag id attributes (settledBody body)
  | node => node

def settledAll : List Node → List Node
  | [] => []
  | item :: items =>
    if item.stringValue? = some " " then settledAll items else settled item :: settledAll items

def settledBody : Option Node → Option Node
  | none => none
  | some body => some (settled body)

end

mutual

/-- The tree with its elements numbered from `next` on, each before those in its body, and the
number that is next after them. -/
def renumber (next : Nat) : Node → Node × Nat
  | document content =>
    let (content, next) := renumberBody next content
    (document content, next)
  | elements items =>
    let (items, next) := renumberAll next items
    (elements items, next)
  | block items =>
    let (items, next) := renumberAll next items
    (block items, next)
  | element tag _ attributes body =>
    let (body, after) := renumberBody (next + 1) body
    (element tag next attributes body, after)
  | binding key value =>
    let (value, next) := renumber next value
    (binding key value, next)
  | node => (node, next)

def renumberAll (next : Nat) : List Node → List Node × Nat
  | [] => ([], next)
  | item :: items =>
    let (item, next) := renumber next item
    let (items, next) := renumberAll next items
    (item :: items, next)

def renumberBody (next : Nat) : Option Node → Option Node × Nat
  | none => (none, next)
  | some body =>
    let (body, next) := renumber next body
    (some body, next)

end

/-- The tree with its elements numbered from zero on. -/
def renumbered (tree : Node) : Node :=
  (tree.renumber 0).1

/-! ## Trees that are the same -/

/-- Optional attribute lists that are the same. -/
def sameHead : Option (List Attribute) → Option (List Attribute) → Bool
  | none, none => true
  | some xs, some ys => sameAttributes xs ys
  | _, _ => false

theorem same_element {tag : Tag} {id : Nat} {xs ys : Option (List Attribute)} {a b : Node}
    (hattributes : sameHead xs ys = true) (hbody : same a b = true) :
    same (element tag id xs (some a)) (element tag id ys (some b)) = true := by
  match xs, ys, hattributes with
  | none, none, _ => simp [same, hbody]
  | some xs, some ys, h =>
    simp only [sameHead] at h
    simp [same, h, hbody]

theorem sameAttributes_cons {x y : Attribute} {xs ys : List Attribute} (hkey : x.key = y.key)
    (hvalue : same x.value y.value = true) (hrest : sameAttributes xs ys = true) :
    sameAttributes (x :: xs) (y :: ys) = true := by
  obtain ⟨key, value⟩ := x
  obtain ⟨_, value'⟩ := y
  cases hkey
  simp only [sameAttributes, decide_true, Bool.true_and, Bool.and_eq_true]
  exact ⟨hvalue, hrest⟩

theorem sameAll_cons {a b : Node} {as bs : List Node} (h : same a b = true)
    (hrest : sameAll as bs = true) : sameAll (a :: as) (b :: bs) = true := by
  simp [sameAll, h, hrest]

end ChatMarkup.Node
