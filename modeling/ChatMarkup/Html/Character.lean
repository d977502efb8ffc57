import ChatMarkup.Source.Literal

/-!
# Characters in HTML

The characters that a document may hold, line ends, and references to characters, as the XML reader
takes them that `read?` stands for.
-/

namespace ChatMarkup.Html

/-- The characters that a document may hold. -/
def isLegal (c : Char) : Bool :=
  c = '\t' || c = '\n' || c = '\r'
    || (0x20 ≤ c.toNat && c.toNat ≠ 0xfffe && c.toNat ≠ 0xffff)

/-- The blanks inside tags. -/
def isTagBlank (c : Char) : Bool :=
  c = ' ' || c = '\t' || c = '\n' || c = '\r'

/-- Every line end becomes a line feed. -/
def foldLineEnds : List Char → List Char
  | [] => []
  | '\r' :: '\n' :: cs => '\n' :: foldLineEnds cs
  | '\r' :: cs => '\n' :: foldLineEnds cs
  | c :: cs => c :: foldLineEnds cs

/-- Every line end and every tab becomes a space. -/
def spaceLineEnds (cs : List Char) : List Char :=
  (foldLineEnds cs).map fun c => if c = '\n' || c = '\t' then ' ' else c

/-! ## References -/

/-- The characters that are referred to by name. -/
def namedChars : List (String × Char) :=
  [("quot", '"'), ("amp", '&'), ("apos", '\''), ("lt", '<'), ("gt", '>')]

/-- The number that digits of a base denote. -/
def numberOf? (base : Nat) (digits : List Char) : Option Nat :=
  if digits = [] then none
  else
    digits.foldlM (fun n c =>
      (Source.hexDigit? c).bind fun digit =>
        if digit < base then some (n * base + digit) else none) 0

/-- The legal character with a number of up to 32 bits; the replacement character for a number that
is none. -/
def charOfNumber? (n : Nat) : Option Char :=
  if n < UInt32.size then
    let c := (Source.scalarOfNat? n).getD '\ufffd'
    if isLegal c then some c else none
  else none

/-- The character that a reference without its ampersand and semicolon refers to. -/
def referenced? : List Char → Option Char
  | '#' :: 'x' :: digits => (numberOf? 16 digits).bind charOfNumber?
  | '#' :: digits => (numberOf? 10 digits).bind charOfNumber?
  | name => List.lookup (String.ofList name) namedChars

/-- A character of a text, as it is written or through a reference. -/
inductive Piece where
  | written (c : Char)
  | referred (c : Char)
deriving DecidableEq, Repr

/-- The character that a piece stands for. -/
def Piece.char : Piece → Char
  | written c => c
  | referred c => c

/-- Finds the references.  What stands behind an ampersand is kept, last first, until its semicolon
comes. -/
def piecesFrom : Option (List Char) → List Char → Option (List Piece)
  | none, [] => some []
  | some _, [] => none
  | none, c :: cs =>
    if c = '&' then piecesFrom (some []) cs else (piecesFrom none cs).map (.written c :: ·)
  | some name, c :: cs =>
    if c = ';' then
      (referenced? name.reverse).bind fun d => (piecesFrom none cs).map (.referred d :: ·)
    else piecesFrom (some (c :: name)) cs

/-- The characters of a text and its references. -/
def pieces? (cs : List Char) : Option (List Piece) :=
  piecesFrom none cs

/-- What a written carriage return becomes in front of the next piece: nothing in front of a line
feed, a line feed in front of another character.  It stays in front of a reference, and at the end
if it stands right behind one. -/
def carriageReturn (behind : Bool) : Option Piece → List Char
  | some (.written c) => if c = '\n' then [] else ['\n']
  | some (.referred _) => ['\r']
  | none => if behind then ['\r'] else ['\n']

/-- The characters of pieces with their line ends folded; `behind` says whether a reference stands
right in front of them. -/
def foldPieces (behind : Bool) : List Piece → List Char
  | [] => []
  | .referred c :: pieces => c :: foldPieces true pieces
  | .written c :: pieces =>
    (if c = '\r' then carriageReturn behind pieces.head? else [c]) ++ foldPieces false pieces

/-- The text that a text with references stands for. -/
def textOf? (cs : List Char) : Option (List Char) :=
  (pieces? cs).map (foldPieces false)

/-- The value that an attribute value with references stands for. -/
def valueOf? (cs : List Char) : Option (List Char) :=
  (pieces? (spaceLineEnds cs)).map (List.map Piece.char)

end ChatMarkup.Html
