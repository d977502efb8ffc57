import ChatMarkup.Error

/-!
# Errors of a chat

What can go wrong in a chat besides its markup, with the line shown for each.
-/

namespace ChatMarkup

/-- An error of a chat, of the service that runs code for it, or of its markup. -/
inductive ChatError where
  | markup (error : MarkupError)
  | network (reason : String)
  | execution (reason : String)
  | host (reason : String)
  | aborted
  | config (reason : String)
  | unknownNode (id : Nat) (expected : String)
  | unknownBlock (token : String)
deriving DecidableEq, Repr

namespace ChatError

/-- The line shown to a user. -/
def message : ChatError → String
  | markup error => error.message
  | network reason => "Network error: " ++ reason
  | execution reason => "Execution failed: " ++ reason
  | host reason => "Chat host error: " ++ reason
  | aborted => "Stream aborted"
  | config reason => "Configuration error: " ++ reason
  | unknownNode id expected => "No " ++ expected ++ " element with id " ++ toString id
  | unknownBlock token => "Unknown code block " ++ token

/-- Whether the error is the user's own wish to stop. -/
def isAbort : ChatError → Bool
  | aborted => true
  | _ => false

/-- The error of the markup. -/
def markup? : ChatError → Option MarkupError
  | markup error => some error
  | _ => none

/-- Whether the error says that a source is not markup. -/
def isParse (error : ChatError) : Bool :=
  error.markup?.any MarkupError.isParse

end ChatError

end ChatMarkup
