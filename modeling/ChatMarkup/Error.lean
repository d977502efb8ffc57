/-!
# Errors of the markup layer

What can go wrong between markup text, trees and HTML, with the line shown for each.
-/

namespace ChatMarkup

/-- The greatest depth of elements inside one another. -/
def maxDepth : Nat := 256

/-- An error of reading, writing or converting markup. -/
inductive MarkupError where
  | parse (line column : Nat) (message : String)
  | shape (found : String)
  | tooDeep (limit : Nat)
  | malformedHtml (message : String)
  | unsupported (name : String)
deriving DecidableEq, Repr

namespace MarkupError

/-- The line shown to a user. -/
def message : MarkupError → String
  | parse line column text =>
    "Parse error at line " ++ toString line ++ ", column " ++ toString column ++ ": " ++ text
  | shape found => "Expected a string in element 'code' but got " ++ found
  | tooDeep limit => "Maximum nesting depth (" ++ toString limit ++ ") exceeded"
  | malformedHtml text => "Markup error: " ++ text
  | unsupported name => "Unsupported node: " ++ name

/-- Whether the error says that a source is not markup. -/
def isParse : MarkupError → Bool
  | parse .. | tooDeep _ => true
  | _ => false

end MarkupError

end ChatMarkup
