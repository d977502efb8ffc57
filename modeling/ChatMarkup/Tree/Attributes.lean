import ChatMarkup.Tree.Basic

/-!
# Attributes

Reading the attribute list of an element: by key, and folded to the scalar values that decide how
the element is shown.  The main statement is `Attributes.scalar?_eq_findSome?`: the folded list
binds a key to the value of its last scalar attribute.
-/

namespace ChatMarkup

/-- An attribute value that is a single literal. -/
inductive Scalar where
  | string (value : String)
  | number (value : Number)
  | boolean (value : Bool)
  | identifier (name : String)
deriving DecidableEq, Repr

/-- The literal that a node is. -/
def Node.scalar? : Node → Option Scalar
  | .string value => some (.string value)
  | .number value => some (.number value)
  | .boolean value => some (.boolean value)
  | .identifier name => some (.identifier name)
  | _ => none

namespace Scalar

/-- The value as text. -/
def text : Scalar → String
  | string value => value
  | number value => String.ofList value.text
  | boolean value => if value then "true" else "false"
  | identifier name => name

/-- A flag is set by the literal, the string or the name `true`. -/
def isTrue : Scalar → Bool
  | string value => value = "true"
  | number _ => false
  | boolean value => value
  | identifier name => name = "true"

theorem isTrue_eq (scalar : Scalar) :
    scalar.isTrue = decide (scalar ∈ [.string "true", .boolean true, .identifier "true"]) := by
  cases scalar with
  | boolean value => cases value <;> rfl
  | _ => simp [isTrue]

end Scalar

namespace Attributes

/-- The node that the last attribute with this key binds. -/
def get? (attributes : List Attribute) (key : String) : Option Node :=
  (attributes.reverse.find? fun entry => entry.key = key).map Keyed.value

def contains (attributes : List Attribute) (key : String) : Bool :=
  attributes.any fun entry => entry.key = key

/-- Binds a key, whatever it was bound to before. -/
def bind (pairs : List (String × Scalar)) (key : String) (value : Scalar) :
    List (String × Scalar) :=
  (key, value) :: pairs.filter fun pair => pair.1 ≠ key

/-- Binds the key of an attribute if its value is a scalar. -/
def bindEntry (pairs : List (String × Scalar)) (entry : Attribute) : List (String × Scalar) :=
  match entry.value.scalar? with
  | some value => bind pairs entry.key value
  | none => pairs

/-- Every key of a scalar attribute with the value of the last such. -/
def scalars (attributes : List Attribute) : List (String × Scalar) :=
  attributes.foldl bindEntry []

/-- The scalar value bound to a key. -/
def scalar? (attributes : List Attribute) (key : String) : Option Scalar :=
  (scalars attributes).lookup key

theorem lookup_filter_ne {α : Type} (pairs : List (String × α)) {key other : String}
    (h : other ≠ key) :
    (pairs.filter fun pair => pair.1 ≠ key).lookup other = pairs.lookup other := by
  induction pairs with
  | nil => rfl
  | cons pair pairs ih =>
    obtain ⟨k, v⟩ := pair
    by_cases hk : k = key
    · subst hk
      simp only [ne_eq, not_true_eq_false, decide_false, Bool.false_eq_true, not_false_eq_true,
        List.filter_cons_of_neg, List.lookup_cons, beq_eq_false_iff_ne.mpr h]
      exact ih
    · simp only [ne_eq, hk, not_false_eq_true, decide_true, List.filter_cons_of_pos,
        List.lookup_cons]
      split
      · rfl
      · exact ih

theorem lookup_bind (pairs : List (String × Scalar)) (key other : String) (value : Scalar) :
    (bind pairs key value).lookup other =
      if other = key then some value else pairs.lookup other := by
  by_cases h : other = key
  · simp [bind, h]
  · simp only [bind, List.lookup_cons, beq_eq_false_iff_ne.mpr h, h, ↓reduceIte]
    exact lookup_filter_ne pairs h

/-- What is bound to a key is the value of the last attribute with this key that is a scalar. -/
theorem scalar?_eq_findSome? (attributes : List Attribute) (key : String) :
    scalar? attributes key = attributes.reverse.findSome? fun entry =>
      if entry.key = key then entry.value.scalar? else none := by
  rw [scalar?, scalars, List.foldl_eq_foldr_reverse]
  induction attributes.reverse with
  | nil => rfl
  | cons entry entries ih =>
    rw [List.foldr_cons, List.findSome?_cons, bindEntry]
    cases hvalue : entry.value.scalar? with
    | none => simpa using ih
    | some value =>
      simp only [lookup_bind]
      by_cases hkey : entry.key = key
      · simp [hkey]
      · simpa [hkey, Ne.symm hkey, eq_comm] using ih

end Attributes

namespace Element

/-- The scalar bound to a key; none without attributes. -/
def scalar? (element : Element) (key : String) : Option Scalar :=
  element.attributes.bind fun attributes => Attributes.scalar? attributes key

end Element

end ChatMarkup
