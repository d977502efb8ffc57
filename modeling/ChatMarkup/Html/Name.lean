import ChatMarkup.Text.CodeRange

/-!
# Names in HTML

The characters of XML names, and names with a qualifier in front of a colon, as the XML reader takes
them that `read?` stands for.
-/

namespace ChatMarkup.Html

/-- The characters that a name can start with, the colon excepted. -/
def nameStartRanges : List (Nat × Nat) :=
  [(0x41, 0x5a), (0x5f, 0x5f), (0x61, 0x7a), (0xc0, 0xd6), (0xd8, 0xf6), (0xf8, 0x2ff),
    (0x370, 0x37d), (0x37f, 0x1fff), (0x200c, 0x200d), (0x2070, 0x218f), (0x2c00, 0x2fef),
    (0x3001, 0xd7ff), (0xf900, 0xfdcf), (0xfdf0, 0xfffd), (0x10000, 0xeffff)]

/-- The characters that a name can only go on with. -/
def nameMoreRanges : List (Nat × Nat) :=
  [(0x2d, 0x2e), (0x30, 0x39), (0xb7, 0xb7), (0x300, 0x36f), (0x203f, 0x2040)]

def isNameStart (c : Char) : Bool :=
  inRanges nameStartRanges c

def isNameChar (c : Char) : Bool :=
  isNameStart c || inRanges nameMoreRanges c

/-- A name, with the qualifier that stands in front of its colon, or an empty one. -/
structure Name where
  qualifier : String
  base : String
deriving DecidableEq, Repr

namespace Name

/-- The name as it is written. -/
def text (name : Name) : String :=
  if name.qualifier = "" then name.base else name.qualifier ++ ":" ++ name.base

/-- Whether a part of a name starts as it has to. -/
def startsWell (part : List Char) : Bool :=
  part.head?.all isNameStart

/-- The name that some characters spell. -/
def ofChars? (cs : List Char) : Option Name :=
  let front := cs.takeWhile (· ≠ ':')
  match cs.dropWhile (· ≠ ':') with
  | [] => if front ≠ [] ∧ startsWell front then some ⟨"", String.ofList front⟩ else none
  | _ :: base =>
    if base ≠ [] ∧ startsWell front ∧ startsWell base ∧ ':' ∉ base then
      some ⟨String.ofList front, String.ofList base⟩
    else none

end Name

/-- Whether a character is a part of a name or the colon in it. -/
def isNamePart (c : Char) : Bool :=
  isNameChar c || c = ':'

/-- Reads the name that stands here. -/
def readName (cs : List Char) : Option (Name × List Char) :=
  (Name.ofChars? (cs.takeWhile isNamePart)).map fun name => (name, cs.dropWhile isNamePart)

theorem readName_length_le {cs rest : List Char} {name : Name}
    (h : readName cs = some (name, rest)) : rest.length ≤ cs.length := by
  simp only [readName, Option.map_eq_some_iff, Prod.mk.injEq] at h
  obtain ⟨_, _, _, rfl⟩ := h
  exact (List.dropWhile_suffix isNamePart).length_le

end ChatMarkup.Html
