/-!
# Tags

The names an element can carry.  The main statement is `Tag.name_ofName`: reading a name as a tag
and writing the tag again gives the name.
-/

namespace ChatMarkup

/-- A tag of the markup, or a name of the author's own. -/
inductive Tag where
  | heading (level : Fin 6)
  | paragraph
  | orderedList
  | unorderedList
  | listItem
  | bold
  | italic
  | inlineCode
  | button
  | input
  | link
  | image
  | code
  | preformatted
  | noSpace
  | custom (name : String)
deriving DecidableEq, Repr

namespace Tag

/-- The tag as it is written. -/
def name : Tag → String
  | heading level => ["h1", "h2", "h3", "h4", "h5", "h6"].getD level "h6"
  | paragraph => "p"
  | orderedList => "ol"
  | unorderedList => "ul"
  | listItem => "li"
  | bold => "b"
  | italic => "i"
  | inlineCode => "c"
  | button => "button"
  | input => "input"
  | link => "link"
  | image => "img"
  | code => "code"
  | preformatted => "pre"
  | noSpace => "nospace"
  | custom name => name

/-- The tags with a meaning of their own. -/
def known : List Tag :=
  [heading 0, heading 1, heading 2, heading 3, heading 4, heading 5, paragraph, orderedList,
    unorderedList, listItem, bold, italic, inlineCode, button, input, link, image, code,
    preformatted, noSpace]

/-- The tag written by a name. -/
def ofName (name : String) : Tag :=
  (known.find? fun tag => tag.name = name).getD (custom name)

/-- Whether the tag is one of the author's own. -/
def isCustom : Tag → Bool
  | custom _ => true
  | _ => false

/-- Whether the body may be a bare string behind the tag. -/
def takesBareString : Tag → Bool
  | bold | italic | inlineCode | button | input | link => true
  | _ => false

theorem ne_image_of_takesBareString {tag : Tag} (h : tag.takesBareString = true) :
    tag ≠ image := by
  rintro rfl
  cases h

theorem ne_code_of_takesBareString {tag : Tag} (h : tag.takesBareString = true) : tag ≠ code := by
  rintro rfl
  cases h

theorem name_ofName (name : String) : (ofName name).name = name := by
  unfold ofName
  cases h : known.find? fun tag => tag.name = name with
  | none => rfl
  | some tag =>
    have := List.find?_some h
    simpa using this

end Tag

end ChatMarkup
