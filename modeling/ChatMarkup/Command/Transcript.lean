import ChatMarkup.Text.Bytes
import ChatMarkup.Text.Decoder

/-!
# Commands

What a command reads from its surroundings and what it leaves: an exit code and two texts.
-/

namespace ChatMarkup

/-- Why a file cannot be read. -/
inductive FileError where
  | missing
  | notDirectory
  | directory
  | nameTooLong
  | notText
  | other (reason : String)
deriving DecidableEq, Repr

namespace FileError

/-- The reason shown to a user. -/
def message : FileError → String
  | missing => "No such file or directory (os error 2)"
  | notDirectory => "Not a directory (os error 20)"
  | directory => "Is a directory (os error 21)"
  | nameTooLong => "File name too long (os error 36)"
  | notText => "stream did not contain valid UTF-8"
  | other reason => reason

end FileError

/-- The text of a file with these bytes. -/
def textOfBytes? (bytes : List UInt8) : Option String :=
  let (decoded, carried) := Utf8.decode [] bytes
  let text := String.ofList (decoded ++ Utf8.flush carried)
  if utf8Bytes text = bytes then some text else none

/-- The files that a command can read. -/
abbrev Files := String → Except FileError String

/-- What a command leaves: its exit code, its output and its error output. -/
structure Transcript where
  code : Nat
  output : String
  errors : String
deriving DecidableEq, Repr

namespace Transcript

/-- Nothing said, nothing wrong. -/
def silent : Transcript := ⟨0, "", ""⟩

/-- A line of output. -/
def line (text : String) : Transcript := ⟨0, text ++ "\n", ""⟩

/-- A failure with lines of error output. -/
def failure (lines : List String) : Transcript := ⟨1, "", String.join (lines.map (· ++ "\n"))⟩

/-- One transcript after the other.  A failure of either is a failure of both. -/
def append (first second : Transcript) : Transcript :=
  ⟨max first.code second.code, first.output ++ second.output, first.errors ++ second.errors⟩

instance : Append Transcript := ⟨append⟩

/-- Transcripts one after the other. -/
def join (transcripts : List Transcript) : Transcript :=
  transcripts.foldr append silent

end Transcript

end ChatMarkup
