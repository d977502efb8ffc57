import ChatMarkup.Tree.Attributes
import ChatMarkup.Tree.Search

/-!
# Stamping a file name

An element with an attribute list that names no file is given the name of one.
-/

namespace ChatMarkup

/-- The key of the attribute that names a file. -/
def filenameKey : String := "filename"

/-- The element with a file name at the end of its attributes. -/
def Element.withFilename (element : Element) (filename : String) : Element :=
  { element with
    attributes := element.attributes.map fun attributes =>
      attributes ++ [⟨filenameKey, .string filename⟩] }

/-- Whether the element has an attribute list, and none of them names a file. -/
def Element.lacksFilename (element : Element) : Bool :=
  element.attributes.any fun attributes => !Attributes.contains attributes filenameKey

/-- The tree with a file name on the element with this id; none if there is no such element or it
does not lack one. -/
def Node.stamp (tree : Node) (id : Nat) (filename : String) : Option Node :=
  if (tree.findElement id).any Element.lacksFilename then
    tree.updateElement id fun element => element.withFilename filename
  else none

end ChatMarkup
