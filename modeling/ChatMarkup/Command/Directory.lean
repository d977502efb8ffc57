import ChatMarkup.Command.Transcript

/-!
# Files in a directory

What a path leads to from a directory that holds files alone.  Nothing is known of what lies around
the directory, so that a path that leaves it leads to no file.
-/

namespace ChatMarkup

/-- Where the first parts of a path lead: to the directory, out of it, or to one of its files. -/
inductive Place where
  | inside
  | outside
  | file (bytes : List UInt8)
deriving DecidableEq, Repr

namespace Place

/-- The most bytes that a part of a path may have. -/
def longestPart : Nat := 255

/-- Where one more part of a path leads.  Nothing can follow a file, not even an empty part. -/
def enter (files : List (String × List UInt8)) : Place → String → Except FileError Place
  | .file _, _ => .error .notDirectory
  | .outside, part => if part ∈ ["", ".", ".."] then .ok outside else .error .missing
  | .inside, part =>
    if part ∈ ["", "."] then .ok inside
    else if part = ".." then .ok outside
    else if longestPart < part.utf8ByteSize then .error .nameTooLong
    else
      match files.lookup part with
      | some bytes => .ok (file bytes)
      | none => .error .missing

/-- The text that stands at a place. -/
def text : Place → Except FileError String
  | .file bytes => (textOfBytes? bytes).elim (.error .notText) .ok
  | _ => .error .directory

end Place

/-- The files of a directory, found by their paths.  An empty path leads nowhere. -/
def Files.ofDirectory (files : List (String × List UInt8)) : Files := fun path =>
  if path = "" then .error .missing
  else do
    let start := if path.front = '/' then Place.outside else .inside
    (← (path.splitOn "/").foldlM (Place.enter files) start).text

end ChatMarkup
