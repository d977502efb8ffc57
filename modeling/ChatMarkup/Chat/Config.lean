import ChatMarkup.Chat.Error
import ChatMarkup.Text.Blank

/-!
# Settings

Where code is run, in which context and for how long, read from named variables.
-/

namespace ChatMarkup

/-- The settings of a client. -/
structure Config where
  backendUrl : String
  execContext : String
  timeoutSeconds : Nat
deriving DecidableEq, Repr

namespace Config

/-- The settings without any variables. -/
def default : Config := ⟨"http://localhost:3000", "lugha", 120⟩

def backendUrlName : String := "LUGHA_BACKEND_URL"

def execContextName : String := "LUGHA_EXEC_CONTEXT"

def timeoutName : String := "LUGHA_REQUEST_TIMEOUT_SECS"

/-- The text without the slashes at its end. -/
def dropTrailingSlashes (text : String) : String :=
  String.ofList (text.toList.reverse.dropWhile (· = '/')).reverse

/-- Whether a text is the address of a web service. -/
def isWebUrl (url : String) : Bool :=
  "http://".toList.isPrefixOf url.toList || "https://".toList.isPrefixOf url.toList

/-- A whole number of seconds, with a plus sign or none, that fits 64 bits. -/
def seconds? (text : String) : Option Nat :=
  let digits :=
    match (trim text).toList with
    | '+' :: digits => digits
    | digits => digits
  if digits ≠ [] ∧ digits.all Char.isDigit then
    let n := Nat.ofDigitChars 10 digits 0
    if n < UInt64.size then some n else none
  else none

/-- The settings that the variables give; one that is not set keeps its default. -/
def ofLookup (lookup : String → Option String) : Except ChatError Config :=
  let backendUrl := ((lookup backendUrlName).map dropTrailingSlashes).getD default.backendUrl
  let execContext := (lookup execContextName).getD default.execContext
  if isWebUrl backendUrl then
    match lookup timeoutName with
    | none => .ok ⟨backendUrl, execContext, default.timeoutSeconds⟩
    | some text =>
      match seconds? text with
      | some seconds => .ok ⟨backendUrl, execContext, seconds⟩
      | none =>
        .error (.config (timeoutName ++ " must be a whole number of seconds, got '" ++ text ++ "'"))
  else
    .error (.config (backendUrlName ++ " must be an http(s) URL, got '" ++ backendUrl ++ "'"))

end Config

end ChatMarkup
