import ChatMarkup.Json.Basic
import ChatMarkup.Tree.Basic

/-!
# Trees as JSON

Reading a markup tree from JSON.  A value is read from its parts upwards: first everything that
each part may stand for, then what the whole may stand for, so that no value is looked at twice.
-/

namespace ChatMarkup

/-- Everything that a JSON value may stand for in a tree: a node, standing alone or inside another
one, a list of nodes, a name, an attribute, a list of attributes, and the record that holds such a
list. -/
structure Meaning where
  json : Json
  outer : Option Node
  inner : Option Node
  nodes : Option (List Node)
  name : Option String
  entry : Option Attribute
  entries : Option (List Attribute)
  attributes : Option (List Attribute)

namespace Meaning

/-- The kinds of elements, each with its tag. -/
def elementKinds : List (String × Tag) :=
  ((List.finRange 6).map fun level => ("H" ++ toString (level.val + 1), .heading level))
    ++ [("Paragraph", .paragraph), ("Ol", .orderedList), ("Ul", .unorderedList), ("Li", .listItem),
      ("B", .bold), ("I", .italic), ("C", .inlineCode), ("Button", .button), ("Input", .input),
      ("Link", .link), ("Image", .image), ("Code", .code), ("Pre", .preformatted),
      ("NoSpace", .noSpace)]

/-- All kinds of nodes, in the order of their numbers. -/
def kinds : List String :=
  ["Document", "ElementList", "Block"] ++ elementKinds.map Prod.fst
    ++ ["Sinkhole", "String", "Number", "Boolean", "Identifier", "AttributeList", "Attribute"]

/-- A value that stands for nothing by itself. -/
def bare (json : Json) : Meaning :=
  ⟨json, none, none, none, none, none, none, none⟩

/-- What an optional field stands for; it may be missing or null. -/
def optional {α : Type} (read : Meaning → Option α) : Option Meaning → Option (Option α)
  | none => some none
  | some meaning =>
    match meaning.json with
    | .null => some none
    | _ => (read meaning).map some

/-- The ids of elements are smaller than this. -/
def idLimit : Nat := UInt32.size

def id? (meaning : Meaning) : Option Nat :=
  meaning.json.nat?.filter fun id => id < idLimit

/-- The kind that a value names; inside another node it may also be given by its number. -/
def kind? (inside : Bool) (json : Json) : Option String :=
  match json with
  | .string text => some text
  | .number n => if inside then n.nat?.bind fun index => kinds[index]? else none
  | _ => none

/-- The name that a record holds. -/
def nameOf (fields : Record Meaning) : Option String :=
  match fields.fields? ["name"] 1 with
  | some [some name] => name.json.text?
  | _ => none

/-- The attribute that a record describes. -/
def entryOf (fields : Record Meaning) : Option Attribute :=
  match fields.fields? ["key", "value"] 2 with
  | some [some key, some value] => do return ⟨← key.name, ← value.inner⟩
  | _ => none

/-- The list of attributes that a record holds. -/
def listOf (fields : Record Meaning) : Option (List Attribute) :=
  match fields.fields? ["attributes"] 1 with
  | some [some list] => list.entries
  | _ => none

/-- The node of a kind with the given fields. -/
def node? (kind : String) (fields : Record Meaning) : Option Node :=
  match elementKinds.lookup kind with
  | some tag =>
    match fields.fields? ["id", "attributes", "body"] 3 with
    | some [some id, attributes, body] => do
      return .element tag (← id.id?) (← optional (·.attributes) attributes)
        (← optional (·.inner) body)
    | _ => none
  | none =>
    match kind with
    | "Document" =>
      match fields.fields? ["document"] 1 with
      | some [content] => (optional (·.inner) content).map .document
      | _ => none
    | "ElementList" =>
      match fields.fields? ["sources"] 1 with
      | some [some items] => items.nodes.map .elements
      | _ => none
    | "Block" =>
      match fields.fields? ["body"] 1 with
      | some [some items] => items.nodes.map .block
      | _ => none
    | "Sinkhole" =>
      match fields.fields? ["id", "name", "attributes", "body"] 4 with
      | some [some id, some name, attributes, body] => do
        return .element (.custom (← name.json.text?)) (← id.id?)
          (← optional (·.attributes) attributes) (← optional (·.inner) body)
      | _ => none
    | "String" =>
      match fields.fields? ["value"] 1 with
      | some [some value] => value.json.text?.map .string
      | _ => none
    | "Number" =>
      match fields.fields? ["value"] 1 with
      | some [some value] => value.json.number?.map .number
      | _ => none
    | "Boolean" =>
      match fields.fields? ["value"] 1 with
      | some [some value] => value.json.bool?.map .boolean
      | _ => none
    | "Identifier" => (nameOf fields).map .identifier
    | "AttributeList" => (listOf fields).map .attributeList
    | "Attribute" => (entryOf fields).map fun entry => .binding entry.key entry.value
    | _ => none

/-- The node that a record describes: its kind stands under `type`, or in front of the fields. -/
def tagged? (inside : Bool) : Record Meaning → Option Node
  | .named members => do
    let kind ← kind? inside (← members.lookup "type").json
    node? kind (.named members)
  | .listed (first :: rest) => do
    let kind ← kind? inside first.json
    node? kind (.listed rest)
  | .listed [] => none

/-- What each item of a list stands for. -/
def all? {α : Type} (read : Meaning → Option α) : Record Meaning → Option (List α)
  | .listed items => items.mapM read
  | .named _ => none

/-- What a value made of parts stands for. -/
def ofRecord (json : Json) (fields : Record Meaning) : Meaning where
  json := json
  outer := tagged? false fields
  inner := tagged? true fields
  nodes := all? (·.inner) fields
  name := nameOf fields
  entry := entryOf fields
  entries := all? (·.entry) fields
  attributes := listOf fields

mutual

/-- What a value stands for. -/
def of : Json → Meaning
  | .array items => ofRecord (.array items) (.listed (ofItems items))
  | .object members => ofRecord (.object members) (.named (ofMembers members))
  | json => bare json

def ofItems : List Json → List Meaning
  | [] => []
  | item :: items => of item :: ofItems items

def ofMembers : List (String × Json) → List (String × Meaning)
  | [] => []
  | (key, value) :: members => (key, of value) :: ofMembers members

end

end Meaning

/-- Reads a tree from JSON. -/
def Node.ofJson? (json : Json) : Option Node :=
  (Meaning.of json).outer

end ChatMarkup
