import ChatMarkup.Text.Blank

/-!
# Faults in markup source

Why reading stops, and where.  A reader that stops hands back the source from the place of the
fault on; line and column are counted from the part in front of it.  The main statement is
`Position.after_eq`: the line is one more than the newlines passed, the column one more than the
characters since the last of them.
-/

namespace ChatMarkup

/-- What the grammar asks for at a place. -/
inductive Expectation where
  | bodyAfter (tag : String)
  | blockOf (tag : String)
  | closeOf (tag : String)
  | attributes
  | closeOfAttributes
  | valueOf (key : String)
  | attributeValue
deriving DecidableEq, Repr

/-- A cause for which source is refused. -/
inductive Fault where
  | expected (what : Expectation) (found : Option Char)
  | expectedIdentifier
  | expectedString
  | endOfInput
  | closeAtTopLevel
  | character (found : Char)
  | characterInAttributes (found : Char)
  | characterInValue (found : Char)
  | unterminatedCall
  | unbalancedCall
  | invalidNumber (text : List Char)
  | unterminatedString
  | invalidEscape
  | invalidSurrogatePair
deriving DecidableEq, Repr

/-- Why a reader stops: for a fault, with the source from its place on, or for a nesting that is
too deep. -/
inductive Stop where
  | fault (cause : Fault) (rest : List Char)
  | tooDeep
deriving DecidableEq, Repr

def Expectation.text : Expectation → String
  | bodyAfter tag => "'\x7b' after '" ++ tag ++ "'"
  | blockOf tag => "'\x7b' to open '" ++ tag ++ "'"
  | closeOf tag => "'\x7d' to close '" ++ tag ++ "'"
  | attributes => "'[' to open attributes"
  | closeOfAttributes => "']' to close attributes"
  | valueOf key => "'=' after attribute '" ++ key ++ "'"
  | attributeValue => "attribute value"

/-- The message shown for a fault. -/
def Fault.message : Fault → String
  | expected what (some c) => "expected " ++ what.text ++ " but found '" ++ c.toString ++ "'"
  | expected what none => "expected " ++ what.text ++ " but reached end of input"
  | expectedIdentifier => "expected identifier"
  | expectedString => "expected string"
  | endOfInput => "unexpected end of input"
  | closeAtTopLevel => "unexpected '\x7d' at top level"
  | character c => "unexpected character '" ++ c.toString ++ "'"
  | characterInAttributes c => "unexpected '" ++ c.toString ++ "' in attribute list"
  | characterInValue c => "unexpected '" ++ c.toString ++ "' in attribute value"
  | unterminatedCall => "unterminated '(' in attribute value"
  | unbalancedCall => "unbalanced ')' in attribute value"
  | invalidNumber text => "invalid number '" ++ String.ofList text ++ "'"
  | unterminatedString => "unterminated string literal"
  | invalidEscape => "invalid \\u escape"
  | invalidSurrogatePair => "invalid surrogate pair"

/-! ## Places -/

/-- A place in a text, lines and columns counted from one. -/
structure Position where
  line : Nat
  column : Nat
deriving DecidableEq, Repr

namespace Position

def start : Position := ⟨1, 1⟩

/-- The place behind one more character. -/
def next (p : Position) (c : Char) : Position :=
  if c = '\n' then ⟨p.line + 1, 1⟩ else ⟨p.line, p.column + 1⟩

/-- The place behind a text. -/
def after (passed : List Char) : Position :=
  passed.foldl next start

/-- The place in `source` from which on `rest` is left. -/
def locate (source rest : List Char) : Position :=
  after (source.take (source.length - rest.length))

theorem after_reverse (passed : List Char) :
    after passed.reverse =
      ⟨1 + passed.count '\n', 1 + (passed.takeWhile (· ≠ '\n')).length⟩ := by
  simp only [after, List.foldl_reverse]
  induction passed with
  | nil => rfl
  | cons c passed ih =>
    rw [List.foldr_cons, ih]
    by_cases h : c = '\n'
    · simp [next, h, Nat.add_assoc]
    · simp [next, h, Nat.add_assoc]

theorem after_eq (passed : List Char) :
    after passed =
      ⟨1 + passed.count '\n', 1 + (passed.reverse.takeWhile (· ≠ '\n')).length⟩ := by
  rw [← List.reverse_reverse passed, after_reverse]
  simp

end Position

end ChatMarkup
